import Vmem.Jemalloc.ArenaAlloc

/-!
# The runs of an arena

Abstractly, an arena is a set of chunks, each divided into runs, one of which may be kept
as a spare one.  The operations take pages from the best fitting free run, free a run and
merge it with its neighbours, and add or give back whole chunks.  The functions on the page
map do this and nothing else, and no assertion of theirs fails.
-/

namespace Vmem
namespace Jemalloc

/-- The chunks of an arena and their runs. -/
structure RunMap where
  owned : Finset Nat
  layouts : Nat → List Run
  spare : Option Nat

namespace RunMap

variable (g : Geometry)

/-- No chunk at all. -/
def empty : RunMap := ⟨∅, fun _ => [], none⟩

/-- One chunk gets other runs. -/
def put (map : RunMap) (c : Nat) (layout : List Run) : RunMap :=
  { map with layouts := Function.update map.layouts c layout }

/-- The first pages of the best fitting free run are taken. -/
inductive Takes (need : Nat) (use : RunUse) (map : RunMap) : RunMap → MapElm → Prop
  | best {c n : Nat} {before after : List Run} {dirty : Bool} (owns : c ∈ map.owned)
      (layout : map.layouts c = before ++ ⟨n, .free, dirty⟩ :: after)
      (fits : BestRun g map.owned map.layouts need ⟨c, g.mapBias + pagesOf before⟩ n) :
      Takes need use map
        (map.put c (before ++ ⟨need, use, dirty⟩ :: (restOf n need dirty ++ after)))
        ⟨c, g.mapBias + pagesOf before⟩

/-- A run is allocated: from a free run, or if none fits from the spare chunk, or a new chunk
is asked for. -/
inductive Allocates (need : Nat) (use : RunUse) (map : RunMap) : RunMap → Arena.Outcome → Prop
  | fits {map' : RunMap} {elm : MapElm} (takes : Takes g need use map map' elm) :
      Allocates need use map map' (.run elm)
  | spare {c : Nat} {dirty : Bool} (none : NoneFits g map.owned map.layouts need)
      (spare : map.spare = some c) (layout : map.layouts c = [wholeRun g .held dirty]) :
      Allocates need use map
        { map.put c (⟨need, use, dirty⟩ :: restOf g.maxPages need dirty) with spare := .none }
        (.run ⟨c, g.mapBias⟩)
  | asks (none : NoneFits g map.owned map.layouts need) (noSpare : map.spare = .none) :
      Allocates need use map map .needsChunk

/-- An allocation goes on with the chunk it asked for, or without one. -/
inductive Resumes (need : Nat) (use : RunUse) (map : RunMap) :
    Option Nat → RunMap → Arena.Outcome → Prop
  | fresh {c : Nat} (new : c ∉ map.owned) :
      Resumes need use map (some c)
        { map.put c (⟨need, use, false⟩ :: restOf g.maxPages need false) with
          owned := insert c map.owned }
        (.run ⟨c, g.mapBias⟩)
  | fits {map' : RunMap} {elm : MapElm} (takes : Takes g need use map map' elm) :
      Resumes need use map none map' (.run elm)
  | fails (none : NoneFits g map.owned map.layouts need) :
      Resumes need use map .none map .none

/-- A chunk in which a run has been freed: it becomes the spare chunk if no run is left, and
the spare chunk before is given back. -/
inductive Frees (c : Nat) (merged : List Run) (dirty : Bool) (map : RunMap) :
    RunMap → Option Nat → Prop
  | kept (notWhole : ∀ dirty, merged ≠ [wholeRun g .free dirty]) :
      Frees c merged dirty map (map.put c merged) none
  | spared (whole : merged = [wholeRun g .free dirty]) :
      Frees c merged dirty map
        { owned := map.owned \ map.spare.toFinset
          layouts := Function.update map.layouts c [wholeRun g .held dirty]
          spare := some c }
        map.spare

end RunMap

/-- An arena whose page map and books are those of a run map, between two operations. -/
structure Sound (g : Geometry) (map : RunMap) (others : Nat) (arena : Arena) : Prop where
  books : Books g map.owned map.layouts others arena
  spare : arena.spare = map.spare
  spareHeld : ∀ c, map.spare = some c →
    c ∈ map.owned ∧ ∃ dirty, map.layouts c = [wholeRun g .held dirty]
  settled : ∀ c ∈ map.owned, map.spare ≠ some c → AllSettled (map.layouts c)
  notWhole : ∀ c ∈ map.owned, map.spare ≠ some c → ∀ dirty,
    map.layouts c ≠ [wholeRun g .free dirty]

variable {g : Geometry} {map : RunMap} {others : Nat} {arena arena' : Arena} {c n need shape : Nat}
  {before after layout : List Run} {use : RunUse} {dirty : Bool} {elm : MapElm}
  {split : Arena → MapElm → Option Arena}

theorem AllSettled.append (left : AllSettled before) (right : AllSettled after) :
    AllSettled (before ++ after) := by
  intro run member
  rcases List.mem_append.mp member with member | member
  · exact left run member
  · exact right run member

theorem allSettled_restOf : AllSettled (restOf n need dirty) := by
  intro run member
  unfold restOf at member
  split at member
  · rw [List.mem_singleton.mp member]
    rfl
  · simp at member

/-- A layout with a run in use is not one free run. -/
theorem ne_wholeRun_of_inUse {run : Run} (member : run ∈ layout) (inUse : run.inUse = true)
    (dirty : Bool) : layout ≠ [wholeRun g .free dirty] := by
  rintro rfl
  rw [List.mem_singleton.mp member] at inUse
  simp [wholeRun, Run.inUse] at inUse

theorem Run.settled_of_inUse {run : Run} (inUse : run.inUse = true) : run.settled = true := by
  revert inUse
  unfold Run.inUse Run.settled
  cases run.use <;> simp

namespace Sound

/-- One chunk other than the spare one gets other runs. -/
theorem put (sound : Sound g map others arena) (notSpare : map.spare ≠ some c)
    (books : Books g map.owned (Function.update map.layouts c layout) others arena')
    (settled : AllSettled layout) (notWhole : ∀ dirty, layout ≠ [wholeRun g .free dirty])
    (frame : Frame arena arena') : Sound g (map.put c layout) others arena' := by
  constructor
  · exact books
  · exact frame.spare.trans sound.spare
  · intro other isSpare
    have different : other ≠ c := by
      rintro rfl
      exact notSpare isSpare
    obtain ⟨owns, held⟩ := sound.spareHeld other isSpare
    exact ⟨owns, by simpa [RunMap.put, different] using held⟩
  · intro other owns spare
    by_cases same : other = c
    · simpa [RunMap.put, same] using settled
    · simpa [RunMap.put, same] using sound.settled other owns spare
  · intro other owns spare
    by_cases same : other = c
    · simpa [RunMap.put, same] using notWhole
    · simpa [RunMap.put, same] using sound.notWhole other owns spare

/-- The spare chunk has no free run. -/
theorem not_spare_of_free (sound : Sound g map others arena)
    (layout : map.layouts c = before ++ ⟨n, .free, dirty⟩ :: after) : map.spare ≠ some c := by
  intro isSpare
  obtain ⟨-, dirty', held⟩ := sound.spareHeld c isSpare
  rw [held] at layout
  have member : (⟨n, .free, dirty⟩ : Run) ∈ [wholeRun g .held dirty'] := by simp [layout]
  simp [wholeRun] at member

theorem settled_split (sound : Sound g map others arena) (owns : c ∈ map.owned) {run : Run}
    (notSpare : map.spare ≠ some c) (layout : map.layouts c = before ++ run :: after) :
    AllSettled before ∧ AllSettled after := by
  have settled := sound.settled c owns notSpare
  rw [layout] at settled
  exact ⟨fun run member => settled run (by simp [member]),
    fun run member => settled run (by simp [member])⟩

/-! ## Allocation -/

/-- A run taken from a free one leaves a layout that may stand. -/
theorem taken_stands (settledBefore : AllSettled before) (settledAfter : AllSettled after)
    (inUse : (⟨need, use, dirty⟩ : Run).inUse = true) :
    AllSettled (before ++ ⟨need, use, dirty⟩ :: (restOf n need dirty ++ after)) ∧
      ∀ dirty', before ++ ⟨need, use, dirty⟩ :: (restOf n need dirty ++ after) ≠
        [wholeRun g .free dirty'] :=
  ⟨settledBefore.append ((allSettled_restOf.append settledAfter).cons (Run.settled_of_inUse inUse)),
    ne_wholeRun_of_inUse (by simp) inUse⟩

/-- What is found in the tree is split. -/
theorem split_found (sound : Sound g map others arena)
    (inUse : ∀ dirty, (⟨need, use, dirty⟩ : Run).inUse = true)
    (splits : Splits g split need use) (found : arena.found need shape = some elm) :
    ∃ arena' map', split arena elm = some arena' ∧ RunMap.Takes g need use map map' elm ∧
      Sound g map' others arena' ∧ arena'.npurgatory = arena.npurgatory := by
  obtain ⟨owns, before, after, n, dirty, layout, position, best⟩ := sound.books.split_found found
  have notSpare := sound.not_spare_of_free layout
  obtain ⟨settledBefore, settledAfter⟩ := sound.settled_split owns notSpare layout
  obtain ⟨arena', result, books, frame⟩ := splits sound.books owns layout settledBefore.last
    settledAfter.head best.fits
  obtain ⟨settled, notWhole⟩ := taken_stands (g := g) (n := n) settledBefore settledAfter
    (inUse dirty)
  rw [position] at result best ⊢
  exact ⟨arena', _, result, .best owns layout best,
    sound.put notSpare books settled notWhole frame, frame.npurgatory⟩

/-- A chunk of one free run is used; all other chunks may stand. -/
theorem use_chunk (map' : RunMap) (books : Books g map'.owned map'.layouts others arena)
    (owns : c ∈ map'.owned) (layout : map'.layouts c = [wholeRun g .free dirty])
    (spare : arena.spare = map'.spare)
    (spareHeld : ∀ other, map'.spare = some other →
      other ≠ c ∧ other ∈ map'.owned ∧ ∃ dirty, map'.layouts other = [wholeRun g .held dirty])
    (inUse : ∀ dirty, (⟨need, use, dirty⟩ : Run).inUse = true)
    (settled : ∀ other ∈ map'.owned, other ≠ c → map'.spare ≠ some other →
      AllSettled (map'.layouts other))
    (notWhole : ∀ other ∈ map'.owned, other ≠ c → map'.spare ≠ some other → ∀ dirty,
      map'.layouts other ≠ [wholeRun g .free dirty])
    (splits : Splits g split need use) (fits : need ≤ g.maxPages) :
    ∃ arena', split arena ⟨c, g.mapBias⟩ = some arena' ∧
      Sound g (map'.put c (⟨need, use, dirty⟩ :: restOf g.maxPages need dirty)) others arena' ∧
      arena'.npurgatory = arena.npurgatory := by
  have split_ : map'.layouts c = [] ++ ⟨g.maxPages, .free, dirty⟩ :: [] := layout
  obtain ⟨arena', result, newBooks, frame⟩ := splits books owns split_ (by simp [Quiet])
    (by simp [Quiet]) fits
  rw [List.nil_append, List.append_nil] at newBooks
  have none : AllSettled [] := by simp [AllSettled]
  obtain ⟨settledHere, notWholeHere⟩ := taken_stands (g := g) (n := g.maxPages) none none
    (inUse dirty)
  rw [List.nil_append, List.append_nil] at settledHere
  simp only [List.nil_append, List.append_nil] at notWholeHere
  refine ⟨arena', result, ⟨newBooks, frame.spare.trans spare, ?_, ?_, ?_⟩, frame.npurgatory⟩
  · intro other isSpare
    obtain ⟨different, member, held⟩ := spareHeld other isSpare
    exact ⟨member, by simpa [RunMap.put, different] using held⟩
  · intro other member notSpare
    by_cases same : other = c
    · simpa [RunMap.put, same] using settledHere
    · simpa [RunMap.put, same] using settled other member same notSpare
  · intro other member notSpare
    by_cases same : other = c
    · simpa [RunMap.put, same] using notWholeHere
    · simpa [RunMap.put, same] using notWhole other member same notSpare

/-- `arena_run_alloc_large` and `arena_run_alloc_small` allocate a run. -/
theorem runAlloc (sound : Sound g map others arena)
    (inUse : ∀ dirty, (⟨need, use, dirty⟩ : Run).inUse = true)
    (splits : Splits g split need use) (fits : need ≤ g.maxPages) (shape : Nat) :
    ∃ arena' map' outcome, arena.runAlloc g split need shape = some (arena', outcome) ∧
      RunMap.Allocates g need use map map' outcome ∧ Sound g map' others arena' ∧
      arena'.npurgatory = arena.npurgatory := by
  unfold Arena.runAlloc
  rw [check_eq_some fits]
  simp only [Option.bind_eq_bind, Option.bind_some]
  cases found : arena.found need shape with
  | some elm =>
      obtain ⟨arena', map', result, takes, newSound, npurgatory⟩ :=
        sound.split_found inUse splits found
      exact ⟨arena', map', .run elm, by simp [result], .fits takes, newSound, npurgatory⟩
  | none =>
      have noneFits := sound.books.noneFits_of_nsearch (Books.found_none found)
      have spareSame := sound.spare
      cases spare : map.spare with
      | none =>
          rw [spare] at spareSame
          exact ⟨arena, map, .needsChunk, by simp [spareSame], .asks noneFits spare, sound, rfl⟩
      | some c =>
          rw [spare] at spareSame
          obtain ⟨owns, dirty, held⟩ := sound.spareHeld c spare
          obtain ⟨freed, result, freedBooks, noSpare, npurgatory⟩ :=
            sound.books.chunkAllocSpare spareSame owns held
          have notSpare : ∀ other, other ≠ c → map.spare ≠ some other := by
            intro other different
            rw [spare]
            exact fun same => different (Option.some.inj same).symm
          obtain ⟨arena', splitResult, newSound, npurgatory'⟩ := use_chunk
            { map.put c [wholeRun g .free dirty] with spare := none } freedBooks owns
            (Function.update_self _ _ _) noSpare (fun _ isSpare => nomatch isSpare) inUse
            (fun other member different _ => by
              simpa [RunMap.put, different] using
                sound.settled other member (notSpare other different))
            (fun other member different _ => by
              simpa [RunMap.put, different] using
                sound.notWhole other member (notSpare other different)) splits fits
          refine ⟨arena', _, .run ⟨c, g.mapBias⟩, ?_, .spare noneFits spare held, ?_,
            npurgatory'.trans npurgatory⟩
          · simp [spareSame, result, splitResult]
          · simpa [RunMap.put] using newSound

/-- `arena_chunk_alloc` with a new chunk puts its run into the tree of free runs. -/
theorem chunkAllocHard (sound : Sound g map others arena) (fresh : Arena.FreshChunk)
    (new : fresh.chunk ∉ map.owned)
    (zeroed : fresh.zero = true →
      ∀ page ∈ Arena.innerPages g, (fresh.header.map page).unzeroed = false) :
    ∃ arena', arena.chunkAllocHard g fresh.chunk fresh.header fresh.zero = some arena' ∧
      Books g (insert fresh.chunk map.owned)
        (Function.update map.layouts fresh.chunk [wholeRun g .free false]) others arena' ∧
      arena'.spare = arena.spare ∧ arena'.npurgatory = arena.npurgatory := by
  obtain ⟨header, initResult, holds, counts⟩ := Books.initHeader_eq g fresh.header zeroed
  have adopted := sound.books.adopt new holds counts
  have split_ : Function.update map.layouts fresh.chunk [wholeRun g .held false] fresh.chunk =
      [] ++ ⟨g.maxPages, .held, false⟩ :: [] := Function.update_self _ _ _
  obtain ⟨arena', result, books, same⟩ := adopted.availInsert (Finset.mem_insert_self _ _) split_
    false false (by simp [Quiet]) (by simp [Quiet]) rfl rfl
  rw [Function.update_idem] at books
  refine ⟨arena', ?_, books, same.spare, same.npurgatory⟩
  unfold Arena.chunkAllocHard
  rw [initResult]
  exact result

/-- The rest of `arena_run_alloc_large` and `arena_run_alloc_small` allocates a run in the new
chunk, or searches once more. -/
theorem runAllocResumed (sound : Sound g map others arena)
    (inUse : ∀ dirty, (⟨need, use, dirty⟩ : Run).inUse = true)
    (splits : Splits g split need use) (fits : need ≤ g.maxPages) (shape : Nat)
    (fresh : Option Arena.FreshChunk) (new : ∀ chunk ∈ fresh, chunk.chunk ∉ map.owned)
    (zeroed : ∀ chunk ∈ fresh, chunk.zero = true →
      ∀ page ∈ Arena.innerPages g, (chunk.header.map page).unzeroed = false) :
    ∃ arena' map' outcome,
      arena.runAllocResumed g split need shape fresh = some (arena', outcome) ∧
      RunMap.Resumes g need use map (fresh.map Arena.FreshChunk.chunk) map' outcome ∧
      Sound g map' others arena' ∧ arena'.npurgatory = arena.npurgatory := by
  cases fresh with
  | none =>
      unfold Arena.runAllocResumed Arena.runAllocHelper
      cases found : arena.found need shape with
      | some elm =>
          obtain ⟨arena', map', result, takes, newSound, npurgatory⟩ :=
            sound.split_found inUse splits found
          exact ⟨arena', map', .run elm, by simp [result], .fits takes, newSound, npurgatory⟩
      | none =>
          have noneFits := sound.books.noneFits_of_nsearch (Books.found_none found)
          exact ⟨arena, map, .none, rfl, .fails noneFits, sound, rfl⟩
  | some fresh =>
      have new := new fresh rfl
      obtain ⟨adopted, result, books, spare, npurgatory⟩ :=
        sound.chunkAllocHard fresh new (zeroed fresh rfl)
      have different : ∀ other ∈ map.owned, other ≠ fresh.chunk :=
        fun other member same => new (same ▸ member)
      obtain ⟨arena', splitResult, newSound, npurgatory'⟩ := use_chunk
        { map.put fresh.chunk [wholeRun g .free false] with
          owned := insert fresh.chunk map.owned } books (Finset.mem_insert_self _ _)
        (Function.update_self _ _ _) (spare.trans sound.spare)
        (fun other isSpare => by
          obtain ⟨member, held⟩ := sound.spareHeld other isSpare
          have apart := different other member
          exact ⟨apart, by simp [member], by simpa [RunMap.put, apart] using held⟩) inUse
        (fun other member apart notSpare => by
          simpa [RunMap.put, apart] using
            sound.settled other (Finset.mem_of_mem_insert_of_ne member apart) notSpare)
        (fun other member apart notSpare => by
          simpa [RunMap.put, apart] using
            sound.notWhole other (Finset.mem_of_mem_insert_of_ne member apart) notSpare)
        splits fits
      refine ⟨arena', _, .run ⟨fresh.chunk, g.mapBias⟩, ?_, .fresh new, ?_,
        npurgatory'.trans npurgatory⟩
      · simp [Arena.runAllocResumed, result, splitResult]
      · simpa [RunMap.put] using newSound

/-! ## Freeing -/

/-- What is left of a chunk is what the run map says, and the chunk given back leaves it. -/
theorem frees (sound : Sound g map others arena) (owns : c ∈ map.owned)
    (notSpare : map.spare ≠ some c) {merged : List Run} {given : Option Nat}
    (freed : Books.Freed g map.owned map.layouts others arena c merged dirty arena' given) :
    ∃ map', RunMap.Frees g c merged dirty map map' given ∧ Sound g map' others arena' ∧
      arena'.npurgatory = arena.npurgatory := by
  cases freed with
  | kept notWhole settled books frame =>
      exact ⟨_, .kept notWhole, sound.put notSpare books settled notWhole frame, frame.npurgatory⟩
  | spared whole books spare npurgatory =>
      rw [sound.spare]
      refine ⟨_, .spared whole, ⟨?_, spare, ?_, ?_, ?_⟩, npurgatory⟩
      · cases old : map.spare with
        | none => simpa [old] using books
        | some other =>
            have apart : other ≠ c := by
              rintro rfl
              exact notSpare old
            obtain ⟨member, dirty', held⟩ := sound.spareHeld other old
            have heldNow : Function.update map.layouts c [wholeRun g .held dirty] other =
                [wholeRun g .held dirty'] := by rw [Function.update_of_ne apart, held]
            have gone := books.giveBack member heldNow
            simpa [Finset.sdiff_singleton_eq_erase] using gone
      · rintro other isSpare
        obtain rfl : c = other := Option.some.inj isSpare
        refine ⟨?_, dirty, by simp⟩
        simp only [Finset.mem_sdiff, Option.mem_toFinset, Option.mem_def]
        exact ⟨owns, notSpare⟩
      · intro other member otherSpare
        have apart : other ≠ c := fun same => otherSpare (by simp [same])
        simp only [Finset.mem_sdiff, Option.mem_toFinset, Option.mem_def] at member
        simpa [apart] using sound.settled other member.1 member.2
      · intro other member otherSpare
        have apart : other ≠ c := fun same => otherSpare (by simp [same])
        simp only [Finset.mem_sdiff, Option.mem_toFinset, Option.mem_def] at member
        simpa [apart] using sound.notWhole other member.1 member.2

end Sound

end Jemalloc
end Vmem
