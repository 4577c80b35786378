import Mathlib.Algebra.BigOperators.Group.Finset.Basic
import Mathlib.Algebra.Order.BigOperators.Group.Finset
import Mathlib.Algebra.BigOperators.Intervals

/-!
# Half-open spans of addresses and how often a list of them covers a point

A span is a start address together with a length.  The cover number of a list
of spans at an address counts the spans that contain it, so "pairwise disjoint"
is a cover number of at most one, "partition of a region" is equality with the
indicator of that region, and moving, cutting or joining spans is linear
arithmetic on cover numbers.
-/

namespace Vmem

/-- The half-open range `[lo, lo + len)`. -/
structure Span where
  lo : Nat
  len : Nat
  deriving DecidableEq, Repr

namespace Span

/-- First address behind a span. -/
def hi (span : Span) : Nat := span.lo + span.len

/-- Membership of an address in a span. -/
def Has (span : Span) (x : Nat) : Prop := span.lo ≤ x ∧ x < span.lo + span.len

instance (span : Span) (x : Nat) : Decidable (span.Has x) :=
  inferInstanceAs (Decidable (_ ∧ _))

theorem has_mk {lo len x : Nat} : (Span.mk lo len).Has x ↔ lo ≤ x ∧ x < lo + len := Iff.rfl

/-- Indicator of a span. -/
def ind (span : Span) (x : Nat) : Nat := if span.Has x then 1 else 0

theorem ind_le_one (span : Span) (x : Nat) : span.ind x ≤ 1 := by
  unfold ind
  split <;> omega

/-- The two cases of the indicator, in the form linear arithmetic uses. -/
theorem ind_spec (span : Span) (x : Nat) :
    (span.lo ≤ x ∧ x < span.lo + span.len ∧ span.ind x = 1) ∨
      ((x < span.lo ∨ span.lo + span.len ≤ x) ∧ span.ind x = 0) := by
  unfold ind
  split
  · next inside => exact Or.inl ⟨inside.1, inside.2, rfl⟩
  · next outside =>
      refine Or.inr ⟨?_, rfl⟩
      unfold Has at outside
      omega

theorem ind_eq_one_iff {span : Span} {x : Nat} : span.ind x = 1 ↔ span.Has x := by
  unfold ind
  split <;> simp_all

theorem ind_eq_zero_iff {span : Span} {x : Nat} : span.ind x = 0 ↔ ¬span.Has x := by
  unfold ind
  split <;> simp_all

theorem ind_pos_iff {span : Span} {x : Nat} : 0 < span.ind x ↔ span.Has x := by
  unfold ind
  split <;> simp_all

/-- A nonempty span contains its own start. -/
theorem ind_lo {span : Span} (nonempty : 0 < span.len) : span.ind span.lo = 1 :=
  ind_eq_one_iff.mpr ⟨le_rfl, by omega⟩

@[simp] theorem ind_empty (lo x : Nat) : (Span.mk lo 0).ind x = 0 :=
  ind_eq_zero_iff.mpr fun inside => by
    have lower := inside.1
    have upper := inside.2
    simp only [Nat.add_zero] at lower upper
    omega

/-- Cutting a span in two keeps the indicator. -/
theorem ind_add (lo first second x : Nat) :
    (Span.mk lo (first + second)).ind x =
      (Span.mk lo first).ind x + (Span.mk (lo + first) second).ind x := by
  have whole := ind_spec (Span.mk lo (first + second)) x
  have left := ind_spec (Span.mk lo first) x
  have right := ind_spec (Span.mk (lo + first) second) x
  dsimp only at whole left right
  omega

/-- Points of the first span lie in the second. -/
def Within (inner outer : Span) : Prop :=
  outer.lo ≤ inner.lo ∧ inner.lo + inner.len ≤ outer.lo + outer.len

theorem Within.ind_le {inner outer : Span} (within : inner.Within outer) (x : Nat) :
    inner.ind x ≤ outer.ind x := by
  have lower := within.1
  have upper := within.2
  have innerCases := ind_spec inner x
  have outerCases := ind_spec outer x
  omega

/-- One of two spans ends before the other begins. -/
def Apart (left right : Span) : Prop :=
  left.lo + left.len ≤ right.lo ∨ right.lo + right.len ≤ left.lo

/-- No address lies in both spans; this allows empty spans anywhere. -/
def Disjoint (left right : Span) : Prop := ∀ x, left.Has x → ¬right.Has x

theorem Apart.disjoint {left right : Span} (apart : left.Apart right) : left.Disjoint right := by
  intro x inside other
  have lower := inside.1
  have upper := inside.2
  have otherLower := other.1
  have otherUpper := other.2
  unfold Apart at apart
  omega

/-- The beginning of a span lies apart from what the span lies apart from. -/
theorem Apart.shorten {lo len less : Nat} {right : Span} (apart : (Span.mk lo len).Apart right)
    (shorter : less ≤ len) : (Span.mk lo less).Apart right := by
  unfold Apart at apart ⊢
  dsimp only at apart ⊢
  omega

theorem Has.lengthen {lo len more x : Nat} (inside : (Span.mk lo len).Has x)
    (longer : len ≤ more) : (Span.mk lo more).Has x :=
  ⟨inside.1, Nat.lt_of_lt_of_le inside.2 (Nat.add_le_add_left longer lo)⟩

end Span

/-- Number of spans of a list that contain an address. -/
def cover (spans : List Span) (x : Nat) : Nat :=
  (spans.map fun span => span.ind x).sum

@[simp] theorem cover_nil (x : Nat) : cover [] x = 0 := rfl

@[simp] theorem cover_cons (span : Span) (spans : List Span) (x : Nat) :
    cover (span :: spans) x = span.ind x + cover spans x := by
  simp [cover]

@[simp] theorem cover_append (left right : List Span) (x : Nat) :
    cover (left ++ right) x = cover left x + cover right x := by
  simp [cover]

theorem cover_perm {left right : List Span} (perm : left.Perm right) (x : Nat) :
    cover left x = cover right x :=
  (perm.map _).sum_eq

theorem ind_le_cover {span : Span} {spans : List Span} (member : span ∈ spans)
    (x : Nat) : span.ind x ≤ cover spans x := by
  rw [cover_perm (List.perm_cons_erase member) x, cover_cons]
  omega

/-- A covered address lies in one of the spans. -/
theorem exists_has_of_cover_pos {spans : List Span} {x : Nat}
    (covered : 0 < cover spans x) : ∃ span ∈ spans, span.Has x := by
  induction spans with
  | nil => simp at covered
  | cons head tail inductionHypothesis =>
      by_cases inside : head.Has x
      · exact ⟨head, List.mem_cons_self, inside⟩
      · have headZero := Span.ind_eq_zero_iff.mpr inside
        rw [cover_cons, headZero, Nat.zero_add] at covered
        obtain ⟨span, member, has⟩ := inductionHypothesis covered
        exact ⟨span, List.mem_cons_of_mem head member, has⟩

/-- An address outside every span is not covered. -/
theorem cover_eq_zero {spans : List Span} {x : Nat}
    (outside : ∀ span ∈ spans, ¬span.Has x) : cover spans x = 0 := by
  by_contra covered
  obtain ⟨span, member, inside⟩ := exists_has_of_cover_pos (Nat.pos_of_ne_zero covered)
  exact outside span member inside

/-- Spans that lie apart cover no address twice. -/
theorem cover_le_one_of_apart {spans : List Span}
    (apart : spans.Pairwise Span.Apart) (x : Nat) : cover spans x ≤ 1 := by
  induction apart with
  | nil => simp
  | @cons head tail apart _ inductionHypothesis =>
      rw [cover_cons]
      rcases Span.ind_spec head x with ⟨lower, upper, one⟩ | ⟨_, zero⟩
      · have : cover tail x = 0 := by
          apply cover_eq_zero
          intro span member inside
          exact (apart span member).disjoint x ⟨lower, upper⟩ inside
        omega
      · omega

/-- Spans that cover no address twice are disjoint. -/
theorem pairwise_disjoint_of_cover {spans : List Span} (once : ∀ x, cover spans x ≤ 1) :
    spans.Pairwise Span.Disjoint := by
  induction spans with
  | nil => exact List.Pairwise.nil
  | cons head tail inductionHypothesis =>
      refine List.pairwise_cons.mpr ⟨fun span member x inside other => ?_,
        inductionHypothesis fun x => ?_⟩
      · have counted := once x
        have tailCounted := ind_le_cover member x
        rw [cover_cons, Span.ind_eq_one_iff.mpr inside] at counted
        rw [Span.ind_eq_one_iff.mpr other] at tailCounted
        omega
      · have counted := once x
        rw [cover_cons] at counted
        omega

/-- A span in a list that leaves an address to others is disjoint from them. -/
theorem disjoint_of_cover {spans others : List Span} {span other : Span} (member : span ∈ spans)
    (otherMember : other ∈ others) (alone : ∀ x, 0 < cover spans x → cover others x = 0) :
    span.Disjoint other := by
  intro x inside otherInside
  have covered := ind_le_cover member x
  have otherCovered := ind_le_cover otherMember x
  rw [Span.ind_eq_one_iff.mpr inside] at covered
  rw [Span.ind_eq_one_iff.mpr otherInside, alone x (by omega)] at otherCovered
  omega

/-- Two entries of a list that covers an address at most once cannot both
contain it. -/
theorem not_has_both {α : Type} [DecidableEq α] (span : α → Span) {list : List α} {a b : α}
    {x : Nat} (aMember : a ∈ list) (bMember : b ∈ list) (different : a ≠ b)
    (once : cover (list.map span) x ≤ 1) (inside : (span a).Has x) : ¬(span b).Has x := by
  intro otherInside
  rw [cover_perm ((List.perm_cons_erase aMember).map span) x, List.map_cons, cover_cons,
    Span.ind_eq_one_iff.mpr inside] at once
  have rest : b ∈ list.erase a := (List.mem_erase_of_ne different.symm).mpr bMember
  have := ind_le_cover (List.mem_map_of_mem (f := span) rest) x
  rw [Span.ind_eq_one_iff.mpr otherInside] at this
  omega

/-! ## Counting spans and lengths -/

/-- Spans that each start on a point of a grid are at most as many as the
total cover number of the grid points. -/
theorem length_le_sum_cover_grid
    (spans : List Span)
    (count : Nat)
    (point : Nat → Nat)
    (onGrid : ∀ span ∈ spans, 0 < span.len ∧ ∃ k < count, span.lo = point k) :
    spans.length ≤ ∑ k ∈ Finset.range count, cover spans (point k) := by
  induction spans with
  | nil => simp
  | cons head tail inductionHypothesis =>
      obtain ⟨nonempty, k, below, start⟩ := onGrid head List.mem_cons_self
      have tailBound := inductionHypothesis fun span member =>
        onGrid span (List.mem_cons_of_mem head member)
      have headBound : 1 ≤ ∑ k ∈ Finset.range count, head.ind (point k) := by
        have startCounted : head.ind (point k) = 1 := by
          rw [← start]
          exact Span.ind_lo nonempty
        rw [← startCounted]
        exact Finset.single_le_sum (f := fun k => head.ind (point k))
          (fun _ _ => Nat.zero_le _) (Finset.mem_range.mpr below)
      simp only [cover_cons, Finset.sum_add_distrib, List.length_cons]
      omega

/-- The length of a span is the number of its points. -/
theorem sum_ind_eq_len (span : Span) (bound : Nat) (below : span.lo + span.len ≤ bound) :
    ∑ x ∈ Finset.range bound, span.ind x = span.len := by
  have asFilter : (∑ x ∈ Finset.range bound, span.ind x) =
      ((Finset.range bound).filter fun x => span.Has x).card := by
    rw [Finset.card_filter]
    rfl
  have asInterval : ((Finset.range bound).filter fun x => span.Has x) =
      Finset.Ico span.lo (span.lo + span.len) := by
    ext x
    rw [Finset.mem_filter, Finset.mem_range, Finset.mem_Ico]
    unfold Span.Has
    omega
  rw [asFilter, asInterval, Nat.card_Ico]
  omega

/-- The total length of a list of spans is the sum of its cover numbers. -/
theorem sum_len_eq_sum_cover
    (spans : List Span)
    (bound : Nat)
    (below : ∀ span ∈ spans, span.lo + span.len ≤ bound) :
    (spans.map Span.len).sum = ∑ x ∈ Finset.range bound, cover spans x := by
  induction spans with
  | nil => simp
  | cons head tail inductionHypothesis =>
      have tailSum := inductionHypothesis fun span member =>
        below span (List.mem_cons_of_mem head member)
      have headSum := sum_ind_eq_len head bound (below head List.mem_cons_self)
      simp only [List.map_cons, List.sum_cons, cover_cons, Finset.sum_add_distrib]
      omega

/-- A list covered pointwise by another is no longer in total. -/
theorem sum_len_le_of_cover_le
    {inner outer : List Span}
    (le : ∀ x, cover inner x ≤ cover outer x) :
    (inner.map Span.len).sum ≤ (outer.map Span.len).sum := by
  let bound := ((inner ++ outer).map Span.hi).sum
  have below : ∀ span ∈ inner ++ outer, span.lo + span.len ≤ bound := by
    intro span member
    exact List.le_sum_of_mem (List.mem_map_of_mem (f := Span.hi) member)
  rw [sum_len_eq_sum_cover inner bound fun span member =>
      below span (List.mem_append_left outer member),
    sum_len_eq_sum_cover outer bound fun span member =>
      below span (List.mem_append_right inner member)]
  exact Finset.sum_le_sum fun x _ => le x

/-! ## Spans with gaps between them -/

theorem cover_cons_pos {first : Span} {rest : List Span} {x : Nat} (inside : first.Has x) :
    0 < cover (first :: rest) x := by
  rw [cover_cons, Span.ind_eq_one_iff.mpr inside]
  omega

/-- Nonempty spans in order, no two of which even touch. -/
structure Separated (spans : List Span) : Prop where
  nonempty : ∀ span ∈ spans, 0 < span.len
  gaps : spans.Pairwise fun left right => left.lo + left.len < right.lo

namespace Separated

variable {first other : Span} {rest others : List Span}

theorem tail (separated : Separated (first :: rest)) : Separated rest where
  nonempty := fun span member => separated.nonempty span (List.mem_cons_of_mem first member)
  gaps := (List.pairwise_cons.mp separated.gaps).2

/-- What is covered lies behind the start of the first span. -/
theorem lo_le (separated : Separated (first :: rest)) {x : Nat}
    (covered : 0 < cover (first :: rest) x) : first.lo ≤ x := by
  obtain ⟨span, member, inside⟩ := exists_has_of_cover_pos covered
  have lower := inside.1
  rcases List.mem_cons.mp member with rfl | inRest
  · exact lower
  · have := (List.pairwise_cons.mp separated.gaps).1 span inRest
    omega

/-- The end of the first span is not covered. -/
theorem cover_end (separated : Separated (first :: rest)) :
    cover (first :: rest) (first.lo + first.len) = 0 := by
  apply cover_eq_zero
  intro span member inside
  have lower := inside.1
  have upper := inside.2
  rcases List.mem_cons.mp member with rfl | inRest
  · omega
  · have := (List.pairwise_cons.mp separated.gaps).1 span inRest
    omega

theorem head_pos (separated : Separated (first :: rest)) : 0 < first.len :=
  separated.nonempty first List.mem_cons_self

/-- Of two separated lists that cover the same addresses, neither begins first. -/
theorem lo_le_lo (left : Separated (first :: rest)) (right : Separated (other :: others))
    (same : ∀ x, cover (first :: rest) x = cover (other :: others) x) : first.lo ≤ other.lo := by
  apply left.lo_le
  rw [same]
  exact cover_cons_pos ⟨le_rfl, by have := right.head_pos; omega⟩

/-- Nor is the first span of either the longer one. -/
theorem end_le_end (left : Separated (first :: rest))
    (same : ∀ x, cover (first :: rest) x = cover (other :: others) x)
    (starts : first.lo = other.lo) : other.lo + other.len ≤ first.lo + first.len := by
  by_contra longer
  have covered : 0 < cover (other :: others) (first.lo + first.len) :=
    cover_cons_pos ⟨by omega, by omega⟩
  rw [← same, left.cover_end] at covered
  exact lt_irrefl 0 covered

/-- Separated spans are determined by the addresses they cover. -/
theorem eq_of_cover {left right : List Span} (leftSeparated : Separated left)
    (rightSeparated : Separated right) (same : ∀ x, cover left x = cover right x) :
    left = right := by
  induction left generalizing right with
  | nil =>
      cases right with
      | nil => rfl
      | cons other others =>
          have covered : 0 < cover (other :: others) other.lo :=
            cover_cons_pos ⟨le_rfl, by have := rightSeparated.head_pos; omega⟩
          rw [← same, cover_nil] at covered
          exact absurd covered (lt_irrefl 0)
  | cons first rest inductionHypothesis =>
      cases right with
      | nil =>
          have covered : 0 < cover (first :: rest) first.lo :=
            cover_cons_pos ⟨le_rfl, by have := leftSeparated.head_pos; omega⟩
          rw [same, cover_nil] at covered
          exact absurd covered (lt_irrefl 0)
      | cons other others =>
          have back := fun x => (same x).symm
          have starts : first.lo = other.lo := le_antisymm
            (leftSeparated.lo_le_lo rightSeparated same)
            (rightSeparated.lo_le_lo leftSeparated back)
          have longer := leftSeparated.end_le_end same starts
          have shorter := rightSeparated.end_le_end back starts.symm
          have lengths : first.len = other.len := by omega
          have equal : first = other := by
            change Span.mk first.lo first.len = Span.mk other.lo other.len
            rw [starts, lengths]
          subst equal
          rw [inductionHypothesis leftSeparated.tail rightSeparated.tail]
          intro x
          have counted := same x
          rw [cover_cons, cover_cons] at counted
          exact Nat.add_left_cancel counted

end Separated

end Vmem
