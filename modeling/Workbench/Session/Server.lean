import Workbench.Session.Broker
import Workbench.Text.Blank

/-!
# Serving peers

A peer sends lines, each a message, and gets every event from the moment it came. How its bytes are
cut on the way means nothing: a line is taken once its end has arrived, and what is left when the
peer has sent all is a line too. Blank lines are passed over. A line that is no text ends the
connection.
-/

namespace Workbench.Session

open Files (Fault)
open Wasm (Bytes)

/-! ### Lines -/

def lineEnd : UInt8 := 10

/-- The byte that can stand before it. -/
def carriageReturn : UInt8 := 13

/-- A line without the carriage return at its end. -/
def trimReturn (line : Bytes) : Bytes :=
  if line.getLast? = some carriageReturn then line.dropLast else line

/-- The lines of bytes that are complete, and what stands behind them. -/
def splitLines : Bytes → List Bytes × Bytes
  | [] => ([], [])
  | b :: rest =>
      let (lines, left) := splitLines rest
      if b = lineEnd then ([] :: lines, left)
      else
        match lines with
        | [] => ([], b :: left)
        | line :: lines => ((b :: line) :: lines, left)

/-- Nothing is lost at the cuts. -/
theorem splitLines_flatten (bytes : Bytes) :
    ((splitLines bytes).1.flatMap (· ++ [lineEnd])) ++ (splitLines bytes).2 = bytes := by
  induction bytes with
  | nil => rfl
  | cons b rest ih =>
      unfold splitLines
      cases h : splitLines rest with
      | mk lines left =>
          rw [h] at ih
          by_cases hb : b = lineEnd
          · subst hb
            simpa using ih
          · cases lines with
            | nil => simpa [hb] using ih
            | cons line lines => simpa [hb] using ih

/-! ### Servers -/

structure Peer where
  client : Nat
  /-- What it sent behind the last complete line. -/
  begun : Bytes
  /-- How many events lie behind it: those it has read, and those from before it came. -/
  seen : Nat
  connected : Bool
  deriving Repr, Inhabited

structure Server where
  broker : Broker
  peers : List Peer

namespace Server

/-- A server that listens, if there is a network to listen on. -/
def listen (network : Except Fault Unit) (broker : Broker) : Except Fault Server :=
  network.map fun _ => ⟨broker, []⟩

def accept (s : Server) : Server :=
  let (client, broker) := s.broker.connect
  ⟨broker, s.peers ++ [⟨client, [], broker.published.length, true⟩]⟩

def setPeer (s : Server) (index : Nat) (peer : Peer) : Server :=
  { s with peers := s.peers.set index peer }

def close (s : Server) (index : Nat) (peer : Peer) : Server :=
  { s.setPeer index { peer with connected := false } with
    broker := s.broker.disconnect peer.client }

/-- Lets all processes that wait come to their end. -/
def endProcesses (outcome : Spawn → Except Failure ProcessOutput) : Nat → Broker → Broker
  | 0, b => b
  | fuel + 1, b =>
      match b.endProcess outcome with
      | (true, b) => endProcesses outcome fuel b
      | (false, b) => b

/-- Takes lines of a peer until one is no text; the result tells whether all were. -/
def takeLines (outcome : Spawn → Except Failure ProcessOutput) (client : Nat) :
    Broker → List Bytes → Bool × Broker
  | b, [] => (true, b)
  | b, line :: rest =>
      match String.fromUTF8? ⟨(trimReturn line).toArray⟩ with
      | none => (false, b)
      | some text =>
          if Text.isAllBlank text then takeLines outcome client b rest
          else
            let b := b.dispatch client text
            let depth := b.coordinator.settings.queueDepth + 1
            takeLines outcome client (endProcesses outcome depth b) rest

/-- Takes bytes of a peer; `last` tells that it has sent all. -/
def receive (s : Server) (outcome : Spawn → Except Failure ProcessOutput) (index : Nat)
    (bytes : Bytes) (last : Bool) : Server :=
  match s.peers[index]? with
  | none => s
  | some peer =>
      if !peer.connected then s
      else
        let (lines, left) := splitLines (peer.begun ++ bytes)
        let lines := if last && !left.isEmpty then lines ++ [left] else lines
        let (wellFormed, broker) := takeLines outcome peer.client s.broker lines
        let s : Server := { s with broker := broker }
        if last || !wellFormed then s.close index { peer with begun := [] }
        else s.setPeer index { peer with begun := left }

/-- The next events of every peer that is connected, and the server once they are read. -/
def deliver (s : Server) (count : Nat) : List (List Event) × Server :=
  let next (peer : Peer) : List Event := (s.broker.published.drop peer.seen).take count
  ((s.peers.filter (·.connected)).map next,
    { s with
      peers := s.peers.map fun peer => { peer with seen := peer.seen + (next peer).length } })

/-- Stops the server: nothing it started goes on. -/
def stop (s : Server) : Server :=
  { s with broker := s.broker.shutdown.2 }

end Server

end Workbench.Session
