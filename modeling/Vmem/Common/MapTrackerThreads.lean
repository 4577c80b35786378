import Vmem.Common.MapTracker

/-!
# Threads that register mappings

`util_range_register` looks its range up in one section under `Mmap_list_lock` and inserts the
tracker in another; in between any thread may run.  `util_range_unregister` and `util_range_find`
are one section each.
-/

namespace Vmem
namespace Common

/-- A range with what its tracker will say. -/
structure Registration where
  addr : Nat
  len : Nat
  type : PmemMapType
  region : Int
  leftover : Int
  deriving DecidableEq, Repr

namespace Registration

/-- The tracker of the registration. -/
def tracker (r : Registration) : MapTracker := newTracker r.addr r.len r.type r.region r.leftover

/-- The range has an address. -/
def Has (r : Registration) (x : Nat) : Prop := r.addr ≤ x ∧ x < r.addr + r.len

/-- Two ranges have no address in common. -/
def Apart (left right : Registration) : Prop :=
  left.addr + left.len ≤ right.addr ∨ right.addr + right.len ≤ left.addr

instance (left right : Registration) : Decidable (left.Apart right) :=
  inferInstanceAs (Decidable (_ ∨ _))

theorem Apart.not_has {left right : Registration} (apart : left.Apart right) {x : Nat}
    (leftHas : left.Has x) : ¬right.Has x := by
  rintro ⟨lower, upper⟩
  obtain ⟨leftLower, leftUpper⟩ := leftHas
  unfold Apart at apart
  omega

theorem Apart.symm {left right : Registration} (apart : left.Apart right) : right.Apart left :=
  Or.symm apart

/-- A nonempty range below 2^63. -/
def Valid (r : Registration) : Prop := 0 < r.len ∧ r.addr + r.len ≤ 2 ^ 63

instance (r : Registration) : Decidable r.Valid := inferInstanceAs (Decidable (_ ∧ _))

/-- Valid ranges that have no address in common are apart. -/
theorem Apart.of_has {left right : Registration} (leftValid : left.Valid)
    (rightValid : right.Valid) (disjoint : ∀ x, left.Has x → ¬right.Has x) :
    left.Apart right := by
  by_contra overlap
  unfold Apart at overlap
  obtain ⟨leftLong, _⟩ := leftValid
  obtain ⟨rightLong, _⟩ := rightValid
  exact disjoint (max left.addr right.addr) ⟨by omega, by omega⟩ ⟨by omega, by omega⟩

end Registration

/-- The list, the registrations between their two sections, and those that returned 0 and of
which nothing has been unregistered since. -/
structure TrackerThreads where
  list : List MapTracker
  pending : Nat → Option Registration
  returned : List Registration

/-- The sections, with the thread that executes them. -/
inductive TrackerSection
  /-- The lookup of `util_range_register`, and its `Malloc`. -/
  | lookUp (thread : Nat) (r : Registration) (mallocFails : Bool)
  /-- The insertion of `util_range_register`. -/
  | insert (thread : Nat)
  | unregister (thread addr len : Nat) (mallocs : Nat → Bool × Bool) (fuel : Nat)
  | find (thread addr len : Nat)

namespace TrackerThreads

/-- Nothing is tracked and no thread is at work. -/
def start : TrackerThreads := ⟨[], fun _ => none, []⟩

/-- Execute one section. -/
def exec (pagesize : Nat) (s : TrackerThreads) : TrackerSection → Option TrackerThreads
  | .lookUp thread r mallocFails =>
      match s.pending thread with
      | some _ => none
      | none =>
          match utilRangeFindUnlocked r.addr r.len s.list with
          | some _ => some s
          | none =>
              if mallocFails then some s
              else some { s with pending := Function.update s.pending thread (some r) }
  | .insert thread =>
      match s.pending thread with
      | none => none
      | some r =>
          some {
            list := sortedqInsert r.tracker s.list
            pending := Function.update s.pending thread none
            returned := r :: s.returned }
  | .unregister thread addr len mallocs fuel =>
      match s.pending thread with
      | some _ => none
      | none =>
          match utilRangeUnregister pagesize s.list addr len mallocs fuel with
          | none => none
          | some (list, _) =>
              some { s with
                list := list
                returned := s.returned.filter fun r =>
                  r.Apart ⟨addr, pageAlignedUp pagesize len, r.type, r.region, r.leftover⟩ }
  | .find thread _ _ =>
      match s.pending thread with
      | some _ => none
      | none => some s

/-- Nonempty ranges below 2^63 are registered, and what is unregistered does not wrap. -/
def Permitted (pagesize : Nat) (_ : TrackerThreads) : TrackerSection → Prop
  | .lookUp _ r _ => r.Valid
  | .unregister _ addr len _ _ => addr + pageAlignedUp pagesize len < Word.modulus
  | _ => True

/-- No lookup while an overlapping registration is between its sections. -/
def Careful (s : TrackerThreads) : TrackerSection → Prop
  | .lookUp _ r _ => ∀ thread other, s.pending thread = some other → r.Apart other
  | _ => True

/-- What careful threads keep. -/
structure Sound (s : TrackerThreads) : Prop where
  tracking : Tracking s.list
  valid : ∀ thread r, s.pending thread = some r → r.Valid
  free : ∀ thread r, s.pending thread = some r → ∀ x, r.Has x → trackedAt s.list x = none
  apart : ∀ thread other r q, thread ≠ other → s.pending thread = some r →
    s.pending other = some q → r.Apart q
  returnedValid : ∀ r ∈ s.returned, r.Valid
  tracked : ∀ r ∈ s.returned, ∀ x, r.Has x → trackedAt s.list x ≠ none
  returnedApart : s.returned.Pairwise Registration.Apart

theorem Sound.start : Sound start where
  tracking := Tracking.nil
  valid := fun _ _ never => by cases never
  free := fun _ _ never _ _ => by cases never
  apart := fun _ _ _ _ _ never _ => by cases never
  returnedValid := fun _ member => absurd member List.not_mem_nil
  tracked := fun _ member => absurd member List.not_mem_nil
  returnedApart := List.Pairwise.nil

variable {pagesize : Nat} {s s' : TrackerThreads}

/-- Who is between the sections after one thread has moved. -/
theorem pending_update {pending : Nat → Option Registration} {thread other : Nat}
    {value : Option Registration} {q : Registration}
    (isPending : Function.update pending thread value other = some q) :
    (other = thread ∧ value = some q) ∨ (other ≠ thread ∧ pending other = some q) := by
  by_cases same : other = thread
  · subst same
    rw [Function.update_self] at isPending
    exact Or.inl ⟨rfl, isPending⟩
  · rw [Function.update_of_ne same] at isPending
    exact Or.inr ⟨same, isPending⟩

/-- A registration that found nothing goes on to its second section. -/
theorem Sound.lookUp {thread : Nat} {r : Registration} (sound : s.Sound) (valid : r.Valid)
    (careful : ∀ thread other, s.pending thread = some other → r.Apart other)
    (missing : utilRangeFindUnlocked r.addr r.len s.list = none) :
    Sound { s with pending := Function.update s.pending thread (some r) } where
  tracking := sound.tracking
  returnedValid := sound.returnedValid
  tracked := sound.tracked
  returnedApart := sound.returnedApart
  valid := by
    intro other q isPending
    rcases pending_update isPending with ⟨_, same⟩ | ⟨_, pending⟩
    · exact Option.some.inj same ▸ valid
    · exact sound.valid other q pending
  free := by
    intro other q isPending x has
    rcases pending_update isPending with ⟨_, same⟩ | ⟨_, pending⟩
    · cases same
      exact (find_none_iff sound.tracking valid.1 valid.2).mp missing x has.1 has.2
    · exact sound.free other q pending x has
  apart := by
    intro first second q q' different firstPending secondPending
    rcases pending_update firstPending with ⟨isFirst, same⟩ | ⟨_, firstPending⟩
    · rcases pending_update secondPending with ⟨isSecond, _⟩ | ⟨_, secondPending⟩
      · exact absurd (isFirst.trans isSecond.symm) different
      · cases same
        exact careful second q' secondPending
    · rcases pending_update secondPending with ⟨_, same⟩ | ⟨_, secondPending⟩
      · cases same
        exact (careful first q firstPending).symm
      · exact sound.apart first second q q' different firstPending secondPending

/-- The second section of a registration. -/
theorem Sound.insert {thread : Nat} {r : Registration} (sound : s.Sound)
    (pending : s.pending thread = some r) :
    Sound {
      list := sortedqInsert r.tracker s.list
      pending := Function.update s.pending thread none
      returned := r :: s.returned } := by
  have valid := sound.valid thread r pending
  have free := sound.free thread r pending
  obtain ⟨tracking, adds⟩ := insert_registered r.type r.region r.leftover sound.tracking valid.1
    valid.2 fun x lower upper => free x ⟨lower, upper⟩
  have others : ∀ other q, Function.update s.pending thread none other = some q →
      other ≠ thread ∧ s.pending other = some q := by
    intro other q isPending
    rcases pending_update isPending with ⟨_, never⟩ | pending
    · cases never
    · exact pending
  exact {
    tracking := tracking
    valid := fun other q isPending => sound.valid other q (others other q isPending).2
    free := by
      intro other q isPending x has
      obtain ⟨different, isPending⟩ := others other q isPending
      have apart := sound.apart other thread q r different isPending pending
      refine (adds x).trans ((if_neg (apart.not_has has)).trans ?_)
      exact sound.free other q isPending x has
    apart := by
      intro first second q q' different firstPending secondPending
      exact sound.apart first second q q' different (others first q firstPending).2
        (others second q' secondPending).2
    returnedValid := by
      intro q member
      rcases List.mem_cons.mp member with rfl | member
      · exact valid
      · exact sound.returnedValid q member
    tracked := by
      intro q member x has missing
      have value := (adds x).symm.trans missing
      by_cases inside : r.Has x
      · have never := (if_pos inside).symm.trans value
        cases never
      · rcases List.mem_cons.mp member with rfl | member
        · exact inside has
        · exact sound.tracked q member x has ((if_neg inside).symm.trans value)
    returnedApart := by
      refine List.pairwise_cons.mpr ⟨fun q member => ?_, sound.returnedApart⟩
      refine Registration.Apart.of_has valid (sound.returnedValid q member) fun x has qHas => ?_
      exact sound.tracked q member x qHas (free x has) }

/-- Unregistering takes bytes away from the list only. -/
theorem Sound.unregister {addr len fuel : Nat} {mallocs : Nat → Bool × Bool}
    {list' : List MapTracker} {done : Bool} (sound : s.Sound)
    (divides : pagesize ∣ Word.modulus)
    (fits : addr + pageAlignedUp pagesize len < Word.modulus)
    (result : utilRangeUnregister pagesize s.list addr len mallocs fuel = some (list', done)) :
    Sound { s with
      list := list'
      returned := s.returned.filter fun r =>
        r.Apart ⟨addr, pageAlignedUp pagesize len, r.type, r.region, r.leftover⟩ } := by
  have unregistered := unregister_unregistered sound.tracking divides fits result
  exact {
    tracking := unregistered.tracking
    valid := sound.valid
    free := fun thread r pending x has =>
      unregistered.fewer x (sound.free thread r pending x has)
    apart := sound.apart
    returnedValid := fun r member => sound.returnedValid r (List.mem_of_mem_filter member)
    tracked := by
      intro r member x has
      obtain ⟨old, apart⟩ := List.mem_filter.mp member
      have outside := (of_decide_eq_true apart).not_has has
      rw [unregistered.outside x outside]
      exact sound.tracked r old x has
    returnedApart := sound.returnedApart.sublist List.filter_sublist }

/-- One section of careful threads. -/
theorem Sound.exec {section_ : TrackerSection} (sound : s.Sound)
    (divides : pagesize ∣ Word.modulus) (permitted : s.Permitted pagesize section_)
    (careful : s.Careful section_) (result : s.exec pagesize section_ = some s') : s'.Sound := by
  cases section_ with
  | lookUp thread r mallocFails =>
      simp only [TrackerThreads.exec] at result
      cases pending : s.pending thread with
      | some q => simp [pending] at result
      | none =>
          cases found : utilRangeFindUnlocked r.addr r.len s.list with
          | some mt =>
              simp only [pending, found, Option.some.injEq] at result
              exact result ▸ sound
          | none =>
              simp only [pending, found] at result
              split at result
              · cases result
                exact sound
              · cases result
                exact sound.lookUp permitted careful found
  | insert thread =>
      simp only [TrackerThreads.exec] at result
      cases pending : s.pending thread with
      | none => simp [pending] at result
      | some r =>
          simp only [pending, Option.some.injEq] at result
          exact result ▸ sound.insert pending
  | unregister thread addr len mallocs fuel =>
      simp only [TrackerThreads.exec] at result
      cases pending : s.pending thread with
      | some q => simp [pending] at result
      | none =>
          cases returned : utilRangeUnregister pagesize s.list addr len mallocs fuel with
          | none => simp [pending, returned] at result
          | some outcome =>
              obtain ⟨list', done⟩ := outcome
              simp only [pending, returned, Option.some.injEq] at result
              exact result ▸ sound.unregister divides permitted returned
  | find thread addr len =>
      simp only [TrackerThreads.exec] at result
      cases pending : s.pending thread with
      | some q => simp [pending] at result
      | none =>
          simp only [pending, Option.some.injEq] at result
          exact result ▸ sound

end TrackerThreads

/-- Any number of threads: if no registration looks its range up while an overlapping one is
between its lookup and its insertion, the tracked ranges are disjoint in every state, and so are
those of the registrations that returned 0, as long as nothing of them is unregistered. -/
theorem concurrent_ranges_disjoint {lgPagesize : Nat} {s : TrackerThreads}
    (small : lgPagesize ≤ 63)
    (reached : Reached (fun s section_ => s.Permitted (2 ^ lgPagesize) section_ ∧
      s.Careful section_) (TrackerThreads.exec (2 ^ lgPagesize)) TrackerThreads.start s) :
    (s.list.Pairwise fun a b => a.endAddr ≤ b.baseAddr ∨ b.endAddr ≤ a.baseAddr) ∧
      s.returned.Pairwise Registration.Apart := by
  have divides : 2 ^ lgPagesize ∣ Word.modulus := Nat.pow_dvd_pow 2 (by omega)
  have sound : s.Sound := reached.invariant TrackerThreads.Sound TrackerThreads.Sound.start
    fun _ _ _ before allowed result => before.exec divides allowed.1 allowed.2 result
  exact ⟨sound.tracking.inOrder.ordered.imp Or.inl, sound.returnedApart⟩

/-- Two threads register neighbouring ranges at the same time. -/
theorem concurrent_ranges_neighbours :
    ∃ s, runs (TrackerThreads.exec (2 ^ 12)) .start
        [.lookUp 0 ⟨4096, 8192, .mapSync, 0, 0⟩ false,
          .lookUp 1 ⟨12288, 4096, .mapSync, 0, 0⟩ false, .insert 1, .insert 0] = some s ∧
      s.list = [⟨4096, 12288, 0, .mapSync⟩, ⟨12288, 16384, 0, .mapSync⟩] ∧
      (s.list.Pairwise fun a b => a.endAddr ≤ b.baseAddr ∨ b.endAddr ≤ a.baseAddr) := by
  let left : Registration := ⟨4096, 8192, .mapSync, 0, 0⟩
  let right : Registration := ⟨12288, 4096, .mapSync, 0, 0⟩
  let first : TrackerThreads := ⟨[], Function.update (fun _ => none) 0 (some left), []⟩
  let second : TrackerThreads := ⟨[], Function.update first.pending 1 (some right), []⟩
  let third : TrackerThreads :=
    ⟨sortedqInsert right.tracker [], Function.update second.pending 1 none, [right]⟩
  let last : TrackerThreads := ⟨sortedqInsert left.tracker (sortedqInsert right.tracker []),
    Function.update third.pending 0 none, [left, right]⟩
  have noOther : TrackerThreads.start.Careful (.lookUp 0 left false) :=
    fun _ _ never => by cases never
  have neighbour : first.Careful (.lookUp 1 right false) := by
    intro thread other isPending
    change Function.update (fun _ => none) 0 (some left) thread = some other at isPending
    rcases TrackerThreads.pending_update isPending with ⟨_, same⟩ | ⟨_, never⟩
    · cases same
      exact Or.inr (by decide)
    · cases never
  have permitsLeft : TrackerThreads.start.Permitted (2 ^ 12) (.lookUp 0 left false) :=
    ⟨by decide, by decide⟩
  have permitsRight : first.Permitted (2 ^ 12) (.lookUp 1 right false) :=
    ⟨by decide, by decide⟩
  have looks : TrackerThreads.exec (2 ^ 12) .start (.lookUp 0 left false) = some first := rfl
  have looksToo : TrackerThreads.exec (2 ^ 12) first (.lookUp 1 right false) = some second := rfl
  have inserts : TrackerThreads.exec (2 ^ 12) second (.insert 1) = some third := rfl
  have insertsToo : TrackerThreads.exec (2 ^ 12) third (.insert 0) = some last := rfl
  have reached : Reached (fun s section_ => s.Permitted (2 ^ 12) section_ ∧ s.Careful section_)
      (TrackerThreads.exec (2 ^ 12)) TrackerThreads.start last := by
    refine Reached.next (Reached.next ?_ ?_ inserts) ?_ insertsToo
    case refine_2 => exact ⟨trivial, trivial⟩
    case refine_3 => exact ⟨trivial, trivial⟩
    exact Reached.next (Reached.next Reached.start ⟨permitsLeft, noOther⟩ looks)
      ⟨permitsRight, neighbour⟩ looksToo
  have list : last.list = [⟨4096, 12288, 0, .mapSync⟩, ⟨12288, 16384, 0, .mapSync⟩] := by
    decide +kernel
  exact ⟨last, rfl, list, (concurrent_ranges_disjoint (by decide) reached).1⟩

/-- Two threads look the same range up before either inserts it.  Both return 0, and the range
is tracked twice. -/
theorem concurrent_ranges_overlap :
    ∃ s, runs (TrackerThreads.exec (2 ^ 12)) .start
        [.lookUp 0 ⟨4096, 8192, .mapSync, 0, 0⟩ false, .lookUp 1 ⟨8192, 8192, .mapSync, 0, 0⟩ false,
          .insert 0, .insert 1] = some s ∧
      s.returned = [⟨8192, 8192, .mapSync, 0, 0⟩, ⟨4096, 8192, .mapSync, 0, 0⟩] ∧
      ¬(s.list.Pairwise fun a b => a.endAddr ≤ b.baseAddr ∨ b.endAddr ≤ a.baseAddr) := by
  have outcome : (runs (TrackerThreads.exec (2 ^ 12)) .start
      [.lookUp 0 ⟨4096, 8192, .mapSync, 0, 0⟩ false,
        .lookUp 1 ⟨8192, 8192, .mapSync, 0, 0⟩ false, .insert 0, .insert 1]).map
      (fun s => (s.returned, s.list)) =
        some ([⟨8192, 8192, .mapSync, 0, 0⟩, ⟨4096, 8192, .mapSync, 0, 0⟩],
          [⟨4096, 12288, 0, .mapSync⟩, ⟨8192, 16384, 0, .mapSync⟩]) := by
    decide +kernel
  obtain ⟨s, run, values⟩ := Option.map_eq_some_iff.mp outcome
  injection values with returned list
  refine ⟨s, run, returned, ?_⟩
  rw [list]
  decide

end Common
end Vmem
