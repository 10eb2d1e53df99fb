import Mathlib.Data.List.Basic
import Mathlib.Logic.Basic

/-!
# Splitting a stream into frames

A splitter reads one frame off the front of a buffer, asks for more input, or
gives up. Its decisions do not change when input arrives later, so the frames of
a stream do not depend on how the input was cut into pieces.
-/

namespace Framing

/-- What a splitter says about a buffer. -/
inductive Verdict (β φ ε : Type) where
  /-- The buffer holds no complete frame yet. -/
  | needMore
  /-- The buffer can never be read. -/
  | fault (error : ε)
  /-- One frame, and the input after it. -/
  | frame (value : φ) (rest : List β)

/-- A rule that reads frames, with decisions stable under later input. -/
structure Splitter (β φ ε : Type) where
  /-- The verdict on a buffer. -/
  next : List β → Verdict β φ ε
  /-- An empty buffer holds no frame. -/
  next_nil : next [] = .needMore
  /-- A fault stays a fault. -/
  fault_append {s : List β} {error : ε} (t : List β) (h : next s = .fault error) :
    next (s ++ t) = .fault error
  /-- A frame stays the same frame. -/
  frame_append {s rest : List β} {value : φ} (t : List β) (h : next s = .frame value rest) :
    next (s ++ t) = .frame value (rest ++ t)
  /-- A frame is some input of its own, which suffices to read it. -/
  frame_prefix {s rest : List β} {value : φ} (h : next s = .frame value rest) :
    ∃ a, a ≠ [] ∧ s = a ++ rest ∧ next a = .frame value []

/-- What is left when no further frame can be read. -/
inductive Tail (β ε : Type) where
  /-- The splitter gave up. -/
  | fault (error : ε)
  /-- The splitter waits for input after these bytes. -/
  | pending (rest : List β)

namespace Splitter

variable {β φ ε : Type} {S : Splitter β φ ε}

/-- Reading frames off a stream for as long as there are any. -/
inductive Reads (S : Splitter β φ ε) : List β → List φ → Tail β ε → Prop
  | pending {s : List β} (h : S.next s = .needMore) : Reads S s [] (.pending s)
  | fault {s : List β} {error : ε} (h : S.next s = .fault error) : Reads S s [] (.fault error)
  | frame {s rest : List β} {value : φ} {frames : List φ} {tail : Tail β ε}
      (h : S.next s = .frame value rest) (hrest : Reads S rest frames tail) :
      Reads S s (value :: frames) tail

/-- A frame takes input away. -/
theorem length_rest_lt {s rest : List β} {value : φ} (h : S.next s = .frame value rest) :
    rest.length < s.length := by
  obtain ⟨a, ha, rfl, _⟩ := S.frame_prefix h
  have := List.length_pos_iff.mpr ha
  simp only [List.length_append]
  omega

/-- Every stream can be read. -/
theorem exists_reads (S : Splitter β φ ε) (s : List β) : ∃ frames tail, S.Reads s frames tail := by
  induction hn : s.length using Nat.strongRecOn generalizing s with
  | ind n ih =>
    subst hn
    cases h : S.next s with
    | needMore => exact ⟨_, _, .pending h⟩
    | fault error => exact ⟨_, _, .fault h⟩
    | frame value rest =>
      obtain ⟨frames, tail, hrest⟩ := ih rest.length (length_rest_lt h) rest rfl
      exact ⟨_, _, .frame h hrest⟩

/-- A stream is read in one way. -/
theorem Reads.unique {s : List β} {frames frames' : List φ} {tail tail' : Tail β ε}
    (h : S.Reads s frames tail) (h' : S.Reads s frames' tail') :
    frames = frames' ∧ tail = tail' := by
  induction h generalizing frames' tail' with
  | pending hs =>
    cases h' with
    | pending => exact ⟨rfl, rfl⟩
    | fault hs' => simp [hs] at hs'
    | frame hs' => simp [hs] at hs'
  | fault hs =>
    cases h' with
    | pending hs' => simp [hs] at hs'
    | fault hs' => simp_all
    | frame hs' => simp [hs] at hs'
  | frame hs _ ih =>
    cases h' with
    | pending hs' => simp [hs] at hs'
    | fault hs' => simp [hs] at hs'
    | frame hs' hrest' =>
      rw [hs, Verdict.frame.injEq] at hs'
      obtain ⟨rfl, rfl⟩ := hs'
      obtain ⟨rfl, rfl⟩ := ih hrest'
      exact ⟨rfl, rfl⟩

/-- What is left pending holds no frame. -/
theorem Reads.needMore {s rest : List β} {frames : List φ}
    (h : S.Reads s frames (.pending rest)) : S.next rest = .needMore := by
  generalize htail : Tail.pending rest = tail at h
  induction h with
  | pending hs => cases htail; exact hs
  | fault => cases htail
  | frame _ _ ih => exact ih htail

/-- Later input after a fault is not read. -/
theorem Reads.append_fault {s : List β} {frames : List φ} {error : ε} (t : List β)
    (h : S.Reads s frames (.fault error)) : S.Reads (s ++ t) frames (.fault error) := by
  generalize htail : Tail.fault error = tail at h ⊢
  induction h with
  | pending => cases htail
  | fault hs => exact .fault (S.fault_append t hs)
  | frame hs _ ih => exact .frame (S.frame_append t hs) (ih htail)

/-- Later input is read as if it followed what was left pending. -/
theorem Reads.append {s t rest : List β} {frames frames' : List φ} {tail : Tail β ε}
    (h : S.Reads s frames (.pending rest)) (h' : S.Reads (rest ++ t) frames' tail) :
    S.Reads (s ++ t) (frames ++ frames') tail := by
  generalize hpending : Tail.pending rest = tail' at h
  induction h with
  | pending => cases hpending; exact h'
  | fault => cases hpending
  | frame hs _ ih => exact .frame (S.frame_append t hs) (ih hpending)

/-- A stream without a frame is left pending as it is. -/
theorem Reads.eq_pending {s rest : List β} (h : S.Reads s [] (.pending rest)) : s = rest := by
  cases h
  rfl

/-- The input of the first frames can be cut off, and is read as just these. -/
theorem Reads.split {s : List β} {frames frames' : List φ} {tail : Tail β ε}
    (h : S.Reads s (frames ++ frames') tail) :
    ∃ a b, s = a ++ b ∧ S.Reads a frames (.pending []) ∧ S.Reads b frames' tail := by
  induction frames generalizing s with
  | nil => exact ⟨[], s, rfl, .pending S.next_nil, h⟩
  | cons value frames ih =>
    obtain _ | _ | ⟨hs, hrest⟩ := h
    obtain ⟨a, b, rfl, ha, hb⟩ := ih hrest
    obtain ⟨c, _, rfl, hc⟩ := S.frame_prefix hs
    have hca := Reads.append (.frame hc (.pending S.next_nil)) ha
    exact ⟨c ++ a, b, (List.append_assoc c a b).symm, hca, hb⟩

end Splitter

end Framing
