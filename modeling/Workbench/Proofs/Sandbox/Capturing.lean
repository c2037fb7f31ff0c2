import Workbench.Sandbox.Capture

/-!
# What is kept of an output

The state of a capture is determined by the bytes that were read, so it does not matter how they
were cut into chunks. Reading goes on until the output ends or cannot be read any further, whether
there is still room or not.
-/

namespace Workbench.Sandbox

open Wasm (Bytes)

variable {limit : Nat}

/-! ### Chunks -/

namespace Captured

/-- What is kept of the bytes that were read so far. -/
def ofSeen (limit : Nat) (seen : Bytes) : Captured :=
  ⟨seen.take limit, decide (limit < seen.length)⟩

theorem ofSeen_nil (limit : Nat) : ofSeen limit [] = empty := by
  simp [ofSeen, empty]

/-- A chunk leads from what is kept of the bytes in front of it to what is kept of the bytes with
it. -/
theorem add_ofSeen (seen chunk : Bytes) :
    (ofSeen limit seen).add limit chunk = ofSeen limit (seen ++ chunk) := by
  have bytes : seen.take limit ++ chunk.take (limit - (seen.take limit).length) =
      (seen ++ chunk).take limit := by
    rw [List.take_append, List.length_take]
    congr 2
    omega
  have cut : (decide (limit < seen.length) || decide (limit - (seen.take limit).length <
      chunk.length)) = decide (limit < (seen ++ chunk).length) := by
    rw [List.length_take, List.length_append, ← Bool.decide_or, decide_eq_decide]
    omega
  rw [add, ofSeen, ofSeen, bytes, cut]

theorem foldl_add_ofSeen (chunks : List Bytes) (seen : Bytes) :
    chunks.foldl (add limit) (ofSeen limit seen) = ofSeen limit (seen ++ chunks.flatten) := by
  induction chunks generalizing seen with
  | nil => simp
  | cons chunk rest ih => rw [List.foldl_cons, add_ofSeen, ih, List.flatten_cons, List.append_assoc]

end Captured

theorem capture_eq (limit : Nat) (d : Delivery) :
    capture limit d =
      ⟨d.stream.take limit, decide (limit < d.stream.length) || d.broken⟩ := by
  rw [capture, ← Captured.ofSeen_nil limit, Captured.foldl_add_ofSeen, List.nil_append]
  rfl

/-! ### Reading to the end -/

/-- What a call that reads on gives. -/
inductive Reply where
  | bytes (chunk : Bytes)
  /-- There is nothing more. -/
  | done
  | failed
  deriving DecidableEq, Repr

/-- The replies to calls that read an output to its end. -/
def Delivery.replies (d : Delivery) : List Reply :=
  d.chunks.map .bytes ++ [if d.broken then .failed else .done]

/-- Reads on, call by call, until a call gives no bytes: what is kept, and the replies that nobody
asked for. -/
def readOut (limit : Nat) (c : Captured) : List Reply → Captured × List Reply
  | [] => (c, [])
  | .bytes chunk :: later => readOut limit (c.add limit chunk) later
  | .done :: later => (c, later)
  | .failed :: later => ({ c with truncated := true }, later)

theorem readOut_bytes (c : Captured) (chunks : List Bytes) (later : List Reply) :
    readOut limit c (chunks.map .bytes ++ later) =
      readOut limit (chunks.foldl (Captured.add limit) c) later := by
  induction chunks generalizing c with
  | nil => rfl
  | cons chunk rest ih => exact ih (c.add limit chunk)

/-- All replies up to the end are asked for, and none behind it. -/
theorem readOut_replies (d : Delivery) (later : List Reply) :
    readOut limit .empty (d.replies ++ later) = (capture limit d, later) := by
  rw [Delivery.replies, List.append_assoc, readOut_bytes, capture]
  cases d.broken with
  | false => simp [readOut]
  | true => simp [readOut]

/-- What is kept of an output are its first bytes, as many as there is room for. It counts as
truncated if there are more or if it could not be read to its end. The chunks do not matter, and the
output is read to its end in any case. -/
theorem capture_regardless_of_chunks (limit : Nat) (d : Delivery) :
    (capture limit d).bytes = d.stream.take (min limit d.stream.length) ∧
    ((capture limit d).truncated = true ↔ limit < d.stream.length ∨ d.broken = true) ∧
    capture limit d = capture limit ⟨[d.stream], d.broken⟩ ∧
    ∀ later, readOut limit .empty (d.replies ++ later) = (capture limit d, later) := by
  refine ⟨?_, ?_, ?_, readOut_replies d⟩
  · rw [capture_eq, ← List.take_eq_take_min]
  · rw [capture_eq, Bool.or_eq_true, decide_eq_true_eq]
  · have whole : Delivery.stream ⟨[d.stream], d.broken⟩ = d.stream := by simp [Delivery.stream]
    rw [capture_eq, capture_eq, whole]

end Workbench.Sandbox
