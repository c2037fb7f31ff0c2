import Workbench.Lang.Host

/-!
# A world in memory

The host of trial runs. It keeps the storage of a contract, which is zero where nothing was written,
and remembers every request with its answer. Other contracts always answer with one, a recovered
signer is the digest itself, and a contract that destroys itself keeps running.
-/

namespace Workbench.Trial

open Lang (Word Builtin HostCall Host)

/-! ### Storage -/

/-- The words that were written, by slot in ascending order. -/
abbrev Storage := List (Word × Word)

namespace Storage

def read (storage : Storage) (slot : Word) : Word :=
  match storage with
  | [] => 0
  | (s, value) :: rest => if s = slot then value else read rest slot

def write (storage : Storage) (slot value : Word) : Storage :=
  match storage with
  | [] => [(slot, value)]
  | (s, old) :: rest =>
      if s = slot then (s, value) :: rest
      else if slot.slt s then (slot, value) :: (s, old) :: rest
      else (s, old) :: write rest slot value

theorem read_write_self (storage : Storage) (slot value : Word) :
    (storage.write slot value).read slot = value := by
  induction storage with
  | nil => simp [write, read]
  | cons entry rest ih =>
      obtain ⟨s, old⟩ := entry
      by_cases h : s = slot
      · simp [write, read, h]
      · by_cases hlt : slot.slt s <;> simp [write, read, h, hlt, ih]

theorem read_write_of_ne {slot other : Word} (h : other ≠ slot) (storage : Storage) (value : Word) :
    (storage.write slot value).read other = storage.read other := by
  induction storage with
  | nil => simp [write, read, h.symm]
  | cons entry rest ih =>
      obtain ⟨s, old⟩ := entry
      by_cases hs : s = slot
      · subst hs
        simp [write, read, h.symm]
      · by_cases hlt : slot.slt s
        · simp [write, read, hs, hlt, h.symm]
        · simp [write, read, hs, hlt, ih]

end Storage

/-! ### Requests -/

/-- A request that was answered. -/
structure Exchange where
  call : HostCall
  answer : Word
  deriving DecidableEq, Repr, Inhabited

/-- A word as a signed number. -/
def wordText (value : Word) : String :=
  toString value.toInt

/-- A request as a call, with its answer where the operation gives a value. -/
def Exchange.text (e : Exchange) : String :=
  let args := ", ".intercalate (e.call.args.map wordText)
  let answer := if e.call.kind.result.hasValue then s!" -> {wordText e.answer}" else ""
  s!"{e.call.kind.importName}({args}){answer}"

/-! ### Worlds -/

structure World where
  /-- Who calls the contract, at first hand and at the root of all calls. -/
  caller : Word
  timestamp : Word
  storage : Storage
  destroyed : Bool
  /-- All requests, the latest first. -/
  exchanges : List Exchange
  deriving DecidableEq, Repr, Inhabited

namespace World

/-- A world in which nothing has happened yet. -/
def fresh (caller timestamp : Word) : World :=
  ⟨caller, timestamp, [], false, []⟩

/-- The answer to a request. -/
def answer (w : World) (call : HostCall) : Word :=
  match call.kind, call.args with
  | .caller, _ | .txOrigin, _ => w.caller
  | .timestamp, _ => w.timestamp
  | .call, _ | .delegateCall, _ => 1
  | .ecrecover, [digest] => digest
  | .storageLoad, [slot] => w.storage.read slot
  | _, _ => 0

/-- The world behind a request, before it is remembered. -/
def change (w : World) (call : HostCall) : World :=
  match call.kind, call.args with
  | .storageStore, [slot, value] => { w with storage := w.storage.write slot value }
  | .selfDestruct, _ => { w with destroyed := true }
  | _, _ => w

/-- The host of trial runs; it never stops one. -/
def host : Host World where
  serve call w :=
    let answer := w.answer call
    (some answer, { w.change call with exchanges := ⟨call, answer⟩ :: w.exchanges })

/-- The words that a contract emitted, in order. -/
def events (w : World) : List Word :=
  w.exchanges.reverse.flatMap fun e => if e.call.kind = .emit then e.call.args else []

end World

end Workbench.Trial
