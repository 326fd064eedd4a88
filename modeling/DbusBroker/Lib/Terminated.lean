import Mathlib.Data.List.TakeWhile

/-!
# Terminated strings in a buffer

Strings packed into a buffer that only grows, each with a terminator behind it, and offsets into the
buffer in the place of pointers. What an offset reads depends only on what was written up to the next
terminator, so it survives everything that is written later.
-/

universe u

namespace DbusBroker.Terminated

variable {α : Type u} {stop : α} {buffer buffer' s more : List α} {p : ℕ}

/-- An offset leads to a string that is terminated within the buffer. -/
def Holds (stop : α) (buffer : List α) (p : ℕ) : Prop := stop ∈ buffer.drop p

/-- The buffer with a string and its terminator behind it. -/
def push (stop : α) (buffer s : List α) : List α := buffer ++ (s ++ [stop])

/-- A string with its terminator takes one place more than the string. -/
@[simp] theorem length_push (stop : α) (buffer s : List α) :
    (push stop buffer s).length = buffer.length + (s.length + 1) := by
  rw [push, List.length_append, List.length_append, List.length_singleton]

/-- Pushing leaves what is there. -/
theorem prefix_push (stop : α) (buffer s : List α) : buffer <+: push stop buffer s := List.prefix_append _ _

/-- Dropping less than a buffer drops nothing of what comes behind it. -/
theorem Holds.drop_append (h : Holds stop buffer p) (more : List α) :
    (buffer ++ more).drop p = buffer.drop p ++ more := by
  apply List.drop_append_of_le_length
  by_contra hle
  rw [Holds, List.drop_eq_nil_of_le (Nat.le_of_not_le hle)] at h
  exact List.not_mem_nil h

/-- A held string stays when the buffer grows. -/
theorem Holds.mono (h : Holds stop buffer p) (hgrows : buffer <+: buffer') : Holds stop buffer' p := by
  obtain ⟨more, rfl⟩ := hgrows
  rw [Holds, h.drop_append]
  exact List.mem_append_left more h

/-- A pushed string is held where the buffer ended. -/
theorem holds_push (stop : α) (buffer s : List α) : Holds stop (push stop buffer s) buffer.length := by
  rw [Holds, push, List.drop_left]
  exact List.mem_append_right s List.mem_cons_self

variable [DecidableEq α]

/-- The string an offset of a buffer leads to. -/
def stringAt (stop : α) (buffer : List α) (p : ℕ) : List α := (buffer.drop p).takeWhile fun c => c ≠ stop

/-- What is read never has the terminator in it. -/
theorem stop_not_mem_stringAt (stop : α) (buffer : List α) (p : ℕ) : stop ∉ stringAt stop buffer p := by
  intro hmem
  have htaken := List.mem_takeWhile_imp hmem
  exact of_decide_eq_true htaken rfl

/-- A held string reads the same when the buffer grows. -/
theorem Holds.stringAt_eq (h : Holds stop buffer p) (hgrows : buffer <+: buffer') :
    stringAt stop buffer' p = stringAt stop buffer p := by
  obtain ⟨more, rfl⟩ := hgrows
  rw [stringAt, stringAt, h.drop_append]
  obtain ⟨front, back, hsplit, hfront⟩ := List.eq_append_cons_of_mem h
  have hstays : ∀ c ∈ front, decide (c ≠ stop) = true := fun c hc => decide_eq_true fun heq => hfront (heq ▸ hc)
  rw [hsplit, List.append_assoc, List.takeWhile_append_of_pos hstays, List.takeWhile_append_of_pos hstays,
    List.cons_append, List.takeWhile_cons_of_neg (by simp), List.takeWhile_cons_of_neg (by simp)]

/-- A pushed string is read back. -/
theorem stringAt_push (buffer : List α) (h : stop ∉ s) : stringAt stop (push stop buffer s) buffer.length = s := by
  have hstays : ∀ c ∈ s, decide (c ≠ stop) = true := fun c hc => decide_eq_true fun heq => h (heq ▸ hc)
  rw [stringAt, push, List.drop_left, List.takeWhile_append_of_pos hstays, List.takeWhile_cons_of_neg (by simp),
    List.append_nil]

end DbusBroker.Terminated
