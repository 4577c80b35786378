import Vmem.Jemalloc.ArenaSections

/-!
# Steps on the runs

What a step of a thread does to the runs of an arena, seen abstractly, and what it does to
the runs in use.  Each function on the page map does the step it should.
-/

namespace Vmem
namespace Jemalloc

variable {g : Geometry} {map map' : RunMap} {others : Nat} {arena arena' : Arena} {c n : Nat}
  {before after : List Run} {run : Run} {dirty : Bool} {elm : MapElm} {use : RunUse}

/-! ## Where a run lies -/

variable (g) in
/-- A run of a chunk with the runs before it and behind it. -/
structure Located (map : RunMap) (elm : MapElm) (before : List Run) (run : Run)
    (after : List Run) : Prop where
  owns : elm.chunk ∈ map.owned
  layout : map.layouts elm.chunk = before ++ run :: after
  page : elm.pageind = g.mapBias + pagesOf before

theorem exists_run_of_live {start page : Nat} {layout : List Run}
    (live : liveRun start layout page = some (n, use)) :
    ∃ before dirty after, layout = before ++ ⟨n, use, dirty⟩ :: after ∧
      page = start + pagesOf before ∧ (⟨n, use, dirty⟩ : Run).inUse = true := by
  induction layout generalizing start with
  | nil => cases live
  | cons run rest inductionHypothesis =>
      rw [liveRun] at live
      by_cases here : page = start
      · rw [if_pos here] at live
        split at live
        · next inUse =>
            obtain ⟨rfl, rfl⟩ := Prod.mk.inj (Option.some.inj live)
            exact ⟨[], run.dirty, rest, rfl, by simp [here], inUse⟩
        · cases live
      · rw [if_neg here] at live
        obtain ⟨before, dirty, after, rfl, position, inUse⟩ := inductionHypothesis live
        exact ⟨run :: before, dirty, after, rfl, by simp [position, Nat.add_assoc], inUse⟩

theorem RunMap.exists_located (live : map.live g elm = some (n, use)) :
    ∃ before dirty after, Located g map elm before ⟨n, use, dirty⟩ after ∧
      (⟨n, use, dirty⟩ : Run).inUse = true := by
  unfold RunMap.live at live
  split at live
  · next owns =>
      obtain ⟨before, dirty, after, layout, page, inUse⟩ := exists_run_of_live live
      exact ⟨before, dirty, after, ⟨owns, layout, page⟩, inUse⟩
  · cases live

/-- No run in use starts inside a run. -/
theorem Located.idle_inside {i : Nat} (located : Located g map elm before run after)
    (nonempty : NonemptyRuns (map.layouts elm.chunk)) (positive : 0 < i) (inside : i < run.pages) :
    map.live g ⟨elm.chunk, elm.pageind + i⟩ = none := by
  obtain ⟨owns, layout, page⟩ := located
  rw [layout] at nonempty
  unfold RunMap.live
  rw [if_pos owns, layout, page]
  have below : g.mapBias + pagesOf before + i < g.mapBias + pagesOf before + run.pages := by omega
  show liveRun g.mapBias (before ++ run :: after) (g.mapBias + pagesOf before + i) = none
  exact liveRun_inside (nonemptyRuns_append.mp nonempty).1 (by omega) below

/-- Merging free runs keeps the others. -/
theorem mem_coalesce (run : Run) {layout : List Run} (taken : run.isFree = false)
    (member : run ∈ layout) :
    run ∈ coalesce layout := by
  induction layout with
  | nil => cases member
  | cons first rest inductionHypothesis =>
      rw [coalesce]
      cases merged : coalesce rest with
      | nil =>
          rw [merged] at inductionHypothesis
          rcases List.mem_cons.mp member with rfl | member
          · exact List.mem_singleton_self _
          · cases inductionHypothesis member
      | cons next others =>
          rw [merged] at inductionHypothesis
          by_cases joins : first.mergeable next = true
          · rw [joinFront, if_pos joins]
            have free : first.isFree = true ∧ next.isFree = true :=
              Bool.and_eq_true_iff.mp (Bool.and_eq_true_iff.mp joins).1
            rcases List.mem_cons.mp member with rfl | member
            · rw [taken] at free
              cases free.1
            · rcases List.mem_cons.mp (inductionHypothesis member) with rfl | member
              · rw [taken] at free
                cases free.2
              · exact List.mem_cons_of_mem _ member
          · rw [joinFront, if_neg joins]
            rcases List.mem_cons.mp member with rfl | member
            · exact List.mem_cons_self
            · exact List.mem_cons_of_mem _ (inductionHypothesis member)

/-! ## Freeing -/

namespace RunMap

theorem Frees.owned {merged : List Run} {given : Option Nat}
    (frees : Frees g c merged dirty map map' given) :
    map'.owned = map.owned \ given.toList.toFinset := by
  cases frees with
  | kept => simp [put]
  | spared =>
      cases map.spare with
      | none => simp
      | some other => simp

end RunMap

namespace Sound

theorem nonempty (sound : Sound g map others arena) :
    ∀ c ∈ map.owned, NonemptyRuns (map.layouts c) :=
  fun c owns => (sound.books.chunk c owns).holds.nonemptyRuns

/-- Nobody uses a run of the spare chunk. -/
theorem not_spare_of_inUse (sound : Sound g map others arena)
    (layout : map.layouts c = before ++ run :: after) (inUse : run.inUse = true) :
    map.spare ≠ some c := by
  intro isSpare
  obtain ⟨-, dirty', held⟩ := sound.spareHeld c isSpare
  have member : run ∈ [wholeRun g .held dirty'] := by simp [← held, layout]
  rw [List.mem_singleton.mp member] at inUse
  simp [wholeRun, Run.inUse] at inUse

/-- What freeing leaves of a chunk is what the run map says, and one entry of the runs in use
changes. -/
theorem freeIn (sound : Sound g map others arena) (owns : c ∈ map.owned)
    (notSpare : map.spare ≠ some c) {merged : List Run} {given : Option Nat}
    (freed : Books.Freed g map.owned map.layouts others arena c merged dirty arena' given)
    {live : MapElm → Option (Nat × RunUse)} (change : (map.put c merged).live g = live) :
    ∃ map', RunMap.Frees g c merged dirty map map' given ∧ Sound g map' others arena' ∧
      arena'.npurgatory = arena.npurgatory ∧ map'.live g = live ∧
      map'.owned = map.owned \ given.toList.toFinset := by
  obtain ⟨map', frees, newSound, npurgatory⟩ := sound.frees owns notSpare freed
  refine ⟨map', frees, newSound, npurgatory, ?_, frees.owned⟩
  exact (frees.live owns notSpare fun s spare => (sound.spareHeld s spare).2).trans change

variable {given : Option Nat}

/-- `arena_run_dalloc` frees a run in use. -/
theorem runDalloc (sound : Sound g map others arena) (located : Located g map elm before run after)
    (inUse : run.inUse = true) (dirtied cleaned : Bool) :
    ∃ arena' map' given,
      arena.runDalloc g elm.chunk elm.pageind dirtied cleaned =
        some (arena', given, dirtied || (!cleaned && run.dirty)) ∧
      RunMap.Frees g elm.chunk
        (coalesce (before ++ ⟨run.pages, .free, dirtied || (!cleaned && run.dirty)⟩ :: after))
        (dirtied || (!cleaned && run.dirty)) map map' given ∧
      Sound g map' others arena' ∧ arena'.npurgatory = arena.npurgatory ∧
      map'.live g = Function.update (map.live g) elm none ∧
      map'.owned = map.owned \ given.toList.toFinset := by
  obtain ⟨owns, layout, page⟩ := located
  have notSpare := sound.not_spare_of_inUse layout inUse
  obtain ⟨settledBefore, settledAfter⟩ := sound.settled_split owns notSpare layout
  obtain ⟨arena', given, result, freed⟩ :=
    sound.books.runDalloc owns layout inUse settledBefore settledAfter dirtied cleaned
  have nonempty := sound.nonempty _ owns
  rw [layout] at nonempty
  obtain ⟨map', frees, newSound, npurgatory, live, owned⟩ := sound.freeIn owns notSpare freed
    (RunMap.live_put owns (by rw [layout]; exact liveRun_dalloc nonempty))
  rw [← page] at result live
  exact ⟨arena', map', given, result, frees, newSound, npurgatory, live, owned⟩

/-- `arena_dalloc_bin_run` frees the run of a bin. -/
theorem dallocBinRun (sound : Sound g map others arena) {binind used : Nat}
    (located : Located g map elm before ⟨n, .small binind, dirty⟩ after) (positive : 0 < used) :
    ∃ arena' map' given,
      arena.dallocBinRun g elm.chunk elm.pageind (elm.pageind + used) =
        some (arena', given.toList, true) ∧
      RunMap.Frees g elm.chunk (coalesce (before ++ Books.binRunFreed n used dirty ++ after)) true
        map map' given ∧
      Sound g map' others arena' ∧ arena'.npurgatory = arena.npurgatory ∧
      map'.live g = Function.update (map.live g) elm none ∧
      map'.owned = map.owned \ given.toList.toFinset := by
  obtain ⟨owns, layout, page⟩ := located
  have notSpare := sound.not_spare_of_inUse layout rfl
  obtain ⟨settledBefore, settledAfter⟩ := sound.settled_split owns notSpare layout
  obtain ⟨arena', given, result, freed⟩ :=
    sound.books.dallocBinRun owns layout settledBefore settledAfter positive
  have nonempty := sound.nonempty _ owns
  rw [layout] at nonempty
  obtain ⟨map', frees, newSound, npurgatory, live, owned⟩ := sound.freeIn owns notSpare freed
    (RunMap.live_put owns (by rw [layout]; exact liveRun_binRun nonempty positive))
  rw [← page] at result live
  exact ⟨arena', map', given, result, frees, newSound, npurgatory, live, owned⟩

/-! ## Trimming and resizing -/

/-- Where a run stays in use, freeing a part of it keeps the chunk. -/
theorem trimIn (sound : Sound g map others arena)
    (notSpare : map.spare ≠ some c) {merged : List Run}
    (freed : Books.Freed g map.owned map.layouts others arena c merged dirty arena' given)
    (member : run ∈ merged) (inUse : run.inUse = true) :
    given = none ∧ Sound g (map.put c merged) others arena' ∧
      arena'.npurgatory = arena.npurgatory := by
  obtain ⟨none, settled, books, frame⟩ := freed.of_inUse run member inUse
  exact ⟨none, sound.put notSpare books settled (ne_wholeRun_of_inUse member inUse) frame,
    frame.npurgatory⟩

/-- `arena_run_trim_head` keeps the last pages of a large run. -/
theorem runTrimHead (sound : Sound g map others arena) {first second : Nat}
    (located : Located g map elm before ⟨first + second, .large, dirty⟩ after)
    (firstPositive : 0 < first) (secondPositive : 0 < second) :
    ∃ arena', arena.runTrimHead g elm.chunk elm.pageind (first + second) second =
        some (arena', none, dirty) ∧
      Sound g (map.put elm.chunk
        (coalesce (before ++ ⟨first, .free, dirty⟩ :: ⟨second, .large, dirty⟩ :: after))) others
        arena' ∧
      arena'.npurgatory = arena.npurgatory ∧
      (map.put elm.chunk
        (coalesce (before ++ ⟨first, .free, dirty⟩ :: ⟨second, .large, dirty⟩ :: after))).live g =
        Function.update (Function.update (map.live g) elm none)
          ⟨elm.chunk, elm.pageind + first⟩ (some (second, .large)) := by
  obtain ⟨owns, layout, page⟩ := located
  have notSpare := sound.not_spare_of_inUse layout rfl
  obtain ⟨settledBefore, settledAfter⟩ := sound.settled_split owns notSpare layout
  obtain ⟨arena', given, result, freed⟩ := sound.books.runTrimHead owns layout settledBefore
    settledAfter firstPositive secondPositive
  obtain ⟨rfl, newSound, npurgatory⟩ := sound.trimIn notSpare freed
    (mem_coalesce ⟨second, .large, dirty⟩ rfl (by simp)) rfl
  have nonempty := sound.nonempty _ owns
  rw [layout] at nonempty
  have live := RunMap.live_put_two (g := g) owns
    (by rw [layout]; exact liveRun_trimHead nonempty firstPositive secondPositive)
  rw [← page] at result live
  exact ⟨arena', result, newSound, npurgatory, live⟩

/-- `arena_run_trim_tail` keeps the first pages of a large run. -/
theorem runTrimTail (sound : Sound g map others arena) {first second : Nat}
    (located : Located g map elm before ⟨first + second, .large, dirty⟩ after)
    (firstPositive : 0 < first) (secondPositive : 0 < second) (dirtied : Bool) :
    ∃ arena', arena.runTrimTail g elm.chunk elm.pageind (first + second) first dirtied =
        some (arena', none, dirtied || dirty) ∧
      Sound g (map.put elm.chunk (coalesce
        (before ++ ⟨first, .large, dirty⟩ :: ⟨second, .free, dirtied || dirty⟩ :: after))) others
        arena' ∧
      arena'.npurgatory = arena.npurgatory ∧
      (map.put elm.chunk (coalesce
        (before ++ ⟨first, .large, dirty⟩ :: ⟨second, .free, dirtied || dirty⟩ :: after))).live g =
        Function.update (map.live g) elm (some (first, .large)) := by
  obtain ⟨owns, layout, page⟩ := located
  have notSpare := sound.not_spare_of_inUse layout rfl
  obtain ⟨settledBefore, settledAfter⟩ := sound.settled_split owns notSpare layout
  obtain ⟨arena', given, result, freed⟩ := sound.books.runTrimTail owns layout settledBefore
    settledAfter firstPositive secondPositive dirtied
  obtain ⟨rfl, newSound, npurgatory⟩ := sound.trimIn notSpare freed
    (mem_coalesce ⟨first, .large, dirty⟩ rfl (by simp)) rfl
  have nonempty := sound.nonempty _ owns
  rw [layout] at nonempty
  have live := RunMap.live_put (g := g) owns
    (by
      rw [layout]
      exact liveRun_trimTail (dirtied || dirty) nonempty firstPositive secondPositive)
  rw [← page] at result live
  exact ⟨arena', result, newSound, npurgatory, live⟩

/-- `arena_ralloc_large_grow` extends a large run, or changes nothing. -/
theorem rallocLargeGrow (sound : Sound g map others arena) {wanted extra : Nat}
    (located : Located g map elm before ⟨n, .large, dirty⟩ after) (more : n < wanted + extra) :
    ∃ arena' failed, arena.rallocLargeGrow g elm.chunk elm.pageind n wanted extra =
        some (arena', failed) ∧
      if failed then arena' = arena ∧ ∀ grown, ¬Books.Grown n wanted extra dirty after grown
      else ∃ grown size, Books.Grown n wanted extra dirty after grown ∧
        Sound g (map.put elm.chunk (before ++ grown)) others arena' ∧
        arena'.npurgatory = arena.npurgatory ∧
        (map.put elm.chunk (before ++ grown)).live g =
          Function.update (map.live g) elm (some (size, .large)) := by
  obtain ⟨owns, layout, page⟩ := located
  have notSpare := sound.not_spare_of_inUse layout rfl
  obtain ⟨settledBefore, settledAfter⟩ := sound.settled_split owns notSpare layout
  obtain ⟨arena', failed, result, outcome⟩ :=
    sound.books.rallocLargeGrow owns layout settledAfter more
  rw [← page] at result
  refine ⟨arena', failed, result, ?_⟩
  cases failed with
  | true => exact outcome
  | false =>
      obtain ⟨grown, possible, frame, books⟩ := outcome
      have nonempty := sound.nonempty _ owns
      rw [layout] at nonempty
      obtain ⟨size, change⟩ := liveRun_grown g.mapBias possible nonempty
      have live := RunMap.live_put (g := g) owns (by rw [layout]; exact change)
      rw [← page] at live
      have stands : AllSettled (before ++ grown) ∧ ∃ run ∈ before ++ grown, run.inUse = true := by
        cases possible with
        | extended m dirtyNext rest enough =>
            have settledRest : AllSettled rest :=
              fun other member => settledAfter other (List.mem_cons_of_mem _ member)
            exact ⟨settledBefore.append ((allSettled_restOf.append settledRest).cons rfl), _,
              List.mem_append_right _ List.mem_cons_self, rfl⟩
      obtain ⟨settled, run, member, inUse⟩ := stands
      exact ⟨grown, size, possible, sound.put notSpare books settled
        (ne_wholeRun_of_inUse member inUse) frame, frame.npurgatory, live⟩

/-- The map elements of a large run are written again, and say the same. -/
theorem rewriteLarge (sound : Sound g map others arena)
    (located : Located g map elm before ⟨n, .large, dirty⟩ after) (header : ArenaChunk)
    (only : OnlyPages (arena.chunks elm.chunk) header elm.pageind (elm.pageind + n))
    (written : Describes g header elm.pageind ⟨n, .large, dirty⟩) :
    Sound g map others (arena.setChunk elm.chunk header) := by
  obtain ⟨owns, layout, page⟩ := located
  rw [List.append_cons] at layout
  rw [page] at only written
  have books := sound.books.rewriteChunk before [⟨n, .large, dirty⟩] [⟨n, .large, dirty⟩] after
    header owns layout (by simp) (by simp [Run.isFree]) (by simp) (by simp [Run.isFree]) rfl
    (by simpa using only) (by simpa using written) rfl
  rw [← layout, Function.update_eq_self] at books
  exact ⟨books, sound.spare, sound.spareHeld, sound.settled, sound.notWhole⟩

theorem described (sound : Sound g map others arena)
    (located : Located g map elm before run after) :
    Describes g (arena.chunks elm.chunk) elm.pageind run := by
  rw [located.page]
  exact sound.books.described located.owns located.layout

theorem inside (sound : Sound g map others arena) (located : Located g map elm before run after) :
    g.mapBias ≤ elm.pageind ∧ elm.pageind + run.pages ≤ g.chunkNpages := by
  have covers := (sound.books.chunk _ located.owns).covers
  simp only [located.layout, pagesOf_append, pagesOf_cons] at covers
  rw [located.page]
  omega

/-- The map elements of a large run in use tell its size. -/
theorem largeSizeGet (sound : Sound g map others arena) (live : map.live g elm = some (n, .large)) :
    (arena.chunks elm.chunk).largeSizeGet elm.pageind = some n := by
  obtain ⟨before, dirty, after, located, -⟩ := RunMap.exists_located live
  exact largeSizeGet_of_describes (sound.described located)

/-- The map elements of a large run may be written once more. -/
theorem runInitLarge (sound : Sound g map others arena)
    (located : Located g map elm before ⟨n, .large, dirty⟩ after) :
    Sound g map others (arena.runInitLarge elm.chunk elm.pageind n) := by
  have described := sound.described located
  have isDirty : ((arena.chunks elm.chunk).map elm.pageind).dirty = dirty :=
    (described.first (by simp)).2
  simp only [Arena.runInitLarge, isDirty]
  exact sound.rewriteLarge located _ (onlyPages_large described.pages_pos)
    (describes_large described.pages_pos)

/-! ## Purging -/

/-- A thread purges the pages of a large run: only their flags change. -/
theorem purgeStashed (sound : Sound g map others arena) {purge : Purge} {page : Nat}
    {rest : List Nat} (unpurged : purge.unpurged = page :: rest)
    (located : Located g map ⟨purge.chunk, page⟩ before ⟨n, .large, dirty⟩ after)
    (unzeroed : Bool) :
    ∃ arena', arena.purgeStashed g purge unzeroed =
        some (arena', { purge with npurged := purge.npurged + n, unpurged := rest }) ∧
      Sound g map others arena' ∧ arena'.npurgatory = arena.npurgatory := by
  have described := sound.described located
  have inside := (sound.inside located).2
  have size := largeSizeGet_of_describes described
  obtain ⟨map_, bin, counts⟩ := Books.unzeroedSet_foldl unzeroed (List.range' page n)
    (arena.chunks purge.chunk)
  refine ⟨arena.setChunk purge.chunk (Arena.unzeroedSetAll (arena.chunks purge.chunk) page n
    unzeroed), ?_, ?_, rfl⟩
  · unfold Arena.purgeStashed
    rw [unpurged]
    simp only [Option.bind_eq_bind, size, Option.bind_some]
    rw [check_eq_some inside]
    rfl
  · refine sound.rewriteLarge located _ ⟨fun other outside => ?_, fun _ _ => ?_, counts⟩ ?_
    · have outside : other < page ∨ page + n ≤ other := outside
      have absent : other ∉ List.range' page n := by
        simp only [List.mem_range'_1]
        omega
      simp only [Arena.unzeroedSetAll, map_, if_neg absent]
    · simp only [Arena.unzeroedSetAll, bin]
    · obtain ⟨positive, first, last⟩ := described
      refine ⟨positive, ?_, fun several => ?_⟩
      · simp only [Arena.unzeroedSetAll, map_, MapBits.IsLarge] at first ⊢
        split <;> exact first
      · have last := last several
        simp only [Arena.unzeroedSetAll, map_, MapBits.IsLarge] at last ⊢
        split <;> exact last

/-- A chunk with dirty pages has its dirty runs stashed. -/
theorem chunkStashDirty (sound : Sound g map others arena) (owns : c ∈ map.owned)
    (notSpare : map.spare ≠ some c) (all : Bool) :
    ∃ arena' layout pages, arena.chunkStashDirty g c all = some (arena', pages) ∧
      Stashed g.mapBias (map.layouts c) layout pages ∧
      nadjac layout = 0 ∧ (all = true → dirtyOf layout = 0) ∧
      Sound g (map.put c layout) others arena' ∧ arena'.npurgatory = arena.npurgatory := by
  obtain ⟨arena', layout, pages, result, stashed, books, apart, clean, frame⟩ :=
    sound.books.chunkStashDirty owns (sound.settled c owns notSpare) all
  refine ⟨arena', layout, pages, result, stashed, apart, clean, ?_, frame.npurgatory⟩
  refine sound.put notSpare books (stashed.allSettled (sound.settled c owns notSpare)) ?_ frame
  cases pages with
  | nil =>
      rw [stashed.eq_of_nil rfl]
      exact sound.notWhole c owns notSpare
  | cons page rest =>
      obtain ⟨-, n, live⟩ := stashed.live_of_mem (sound.nonempty c owns) List.mem_cons_self
      obtain ⟨before, dirty, after, split, -, inUse⟩ := exists_run_of_live live
      exact ne_wholeRun_of_inUse (by simp [split]) inUse

end Sound

end Jemalloc
end Vmem
