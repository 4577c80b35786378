import Mathlib.Data.List.Perm.Basic
import Vmem.Library.RangeQueue
import Vmem.Library.Span

/-!
# The emulation of `mmap` and `munmap` on Windows

`win_mmap.c` keeps a sorted list of its mappings.  A mapping has two handles, a view on the part
of its range that is backed by the file, and a reservation on the rest.  `munmap` cuts mappings:
it unmaps the view and releases the reservation of the old one, and maps and reserves what
remains.

Of Windows the model keeps the views, the reserved bytes and the open handles of the process.
A view has whole pages, which are smaller than the units of `Mmap_align` that ranges are made of,
and a handle that is closed while it is not open is noted.  `NtFreeVirtualMemory` succeeds on
reserved memory; whether any other call succeeds is part of an outcome.
-/

namespace Vmem
namespace Windows

/-- `Access`, as `mmap` computes it. -/
inductive FileMapAccess
  | copy
  | all
  | read
  deriving DecidableEq, Repr

/-- `FILE_MAPPING_TRACKER`.  A handle that is `NULL` or `INVALID_HANDLE_VALUE` is no handle. -/
structure FileMappingTracker where
  fileHandle : Option Nat
  fileMappingHandle : Option Nat
  baseAddress : Nat
  endAddress : Nat
  access : FileMapAccess
  offset : Nat
  fileLen : Nat
  flags : Nat
  deriving DecidableEq, Repr

namespace FileMappingTracker

/-- The difference of `EndAddress` and `BaseAddress`. -/
def length (t : FileMappingTracker) : Nat := Word.sub t.endAddress t.baseAddress

end FileMappingTracker

/-- `mmap_file_mapping_comparer`. -/
def mmapFileMappingComparer (a b : FileMappingTracker) : Int :=
  Word.signedSub a.baseAddress b.baseAddress

/-- `PMDK_SORTEDQ_INSERT` into `FileMappingQHead`. -/
def sortedqInsert (elm : FileMappingTracker) (queue : List FileMappingTracker) :
    List FileMappingTracker :=
  RangeQueue.insertBefore (fun it => mmapFileMappingComparer it elm < 0) elm queue

/-- The list, and what the process has of Windows. -/
structure WinState where
  /-- `FileMappingQHead`. -/
  queue : List FileMappingTracker
  views : List Span
  reserved : Nat → Bool
  handles : List Nat
  nextHandle : Nat
  /-- A handle was closed that was not open. -/
  closedTwice : Bool
  /-- Trackers that were freed while they were in the list. -/
  dangling : List FileMappingTracker

namespace WinState

/-- `CloseHandle`. -/
def closeHandle (s : WinState) : Option Nat → WinState
  | none => s
  | some h =>
      if h ∈ s.handles then { s with handles := s.handles.erase h }
      else { s with closedTwice := true }

/-- A handle is opened. -/
def openHandle (s : WinState) : WinState :=
  { s with handles := s.nextHandle :: s.handles, nextHandle := s.nextHandle + 1 }

/-- `UnmapViewOfFile`. -/
def unmapViewOfFile (s : WinState) (base : Nat) : WinState :=
  { s with views := s.views.filter fun view => view.lo ≠ base }

/-- `MapViewOfFileEx` at a given address. -/
def mapViewOfFileEx (s : WinState) (base len : Nat) : WinState :=
  { s with views := ⟨base, len⟩ :: s.views }

/-- `mmap_reserve`. -/
def mmapReserve (s : WinState) (addr len : Nat) : WinState :=
  { s with reserved := fun x => (addr ≤ x ∧ x < addr + len) ∨ s.reserved x }

/-- `mmap_unreserve`. -/
def mmapUnreserve (s : WinState) (addr len : Nat) : WinState :=
  if s.reserved addr then
    { s with reserved := fun x => ¬(addr ≤ x ∧ x < addr + len) ∧ s.reserved x }
  else s

/-- Close the handles of a tracker. -/
def closeHandles (s : WinState) (t : FileMappingTracker) : WinState :=
  (s.closeHandle t.fileMappingHandle).closeHandle t.fileHandle

/-- Release the reservation of a tracker, if it has one. -/
def releaseTail (s : WinState) (t : FileMappingTracker) : WinState :=
  if t.length > t.fileLen then
    s.mmapUnreserve (Word.add t.baseAddress t.fileLen) (Word.sub t.length t.fileLen)
  else s

end WinState

/-! ## `mmap_split` -/

/-- Which calls in `mmap_split` succeed, and what a new tracker contains before it is written. -/
structure SplitOutcome where
  mtbAlloc : Bool
  mteAlloc : Bool
  dupFile : Bool
  dupMapping : Bool
  unmap : Bool
  reserveMtb : Bool
  mapMtb : Bool
  reserveMte : Bool
  mapMte : Bool
  junk : FileMappingTracker

/-- How `mmap_split` ends: with 0, or with -1 before or after it has unmapped anything. -/
inductive SplitEnd
  | done
  | refused
  | lost
  deriving DecidableEq, Repr

/-- Where a remainder is reserved, mapped and inserted; or what failed. -/
inductive Placed
  | inserted
  | notReserved
  | notMapped
  deriving DecidableEq, Repr

/-- The new mapping at the beginning. -/
def splitBegin (mt : FileMappingTracker) (start : Nat) : Option FileMappingTracker :=
  if start > mt.baseAddress then
    some { mt with
      endAddress := start
      fileLen := if start - mt.baseAddress ≥ mt.fileLen then mt.fileLen
        else start - mt.baseAddress }
  else none

/-- The new mapping at the end, with its handles. -/
def splitEnd (mt : FileMappingTracker) (stop : Nat) (fh fmh : Option Nat) : FileMappingTracker :=
  { mt with
    fileHandle := fh
    fileMappingHandle := fmh
    baseAddress := stop
    offset := Word.add mt.offset (stop - mt.baseAddress)
    fileLen := if stop - mt.baseAddress ≥ mt.fileLen then 0
      else mt.fileLen - (stop - mt.baseAddress) }

namespace WinState

/-- Reserve, map and insert a remainder. -/
def place (s : WinState) (t : FileMappingTracker) (reserves maps : Bool) : WinState × Placed :=
  if t.length > t.fileLen ∧ ¬reserves then (s, .notReserved)
  else
    let s := if t.length > t.fileLen then
        s.mmapReserve (Word.add t.baseAddress t.fileLen) (Word.sub t.length t.fileLen)
      else s
    if 0 < t.fileLen ∧ ¬maps then (s, .notMapped)
    else
      let s := if 0 < t.fileLen then s.mapViewOfFileEx t.baseAddress t.fileLen else s
      ({ s with queue := sortedqInsert t s.queue }, .inserted)

/-- What the labels `err` and `err_mte` do for a new mapping. -/
def discard (s : WinState) : Option FileMappingTracker → WinState
  | none => s
  | some t => (s.closeHandles t).releaseTail t

/-- The code at the label `err`. -/
def splitErr (s : WinState) (mtb mte : Option FileMappingTracker) : WinState :=
  (s.discard mtb).discard mte

/-- Free a mapping that may have been inserted. -/
def freeListed (s : WinState) (mtb : Option FileMappingTracker) : WinState :=
  { s with dangling := mtb.toList ++ s.dangling }

/-- The last part of `mmap_split`: the mapping at the end is put in place. -/
def splitPlaceEnd (s : WinState) (mtb mte : Option FileMappingTracker) (o : SplitOutcome) :
    WinState × SplitEnd :=
  match mte with
  | none => (s, .done)
  | some t =>
      match s.place t o.reserveMte o.mapMte with
      | (s, .inserted) => (s, .done)
      | (s, .notReserved) => ((s.splitErr mtb mte).freeListed mtb, .lost) -- goto err
      | (s, .notMapped) => ((s.discard mte).freeListed mtb, .lost) -- goto err_mte

/-- The part of `mmap_split` after the old tracker is freed. -/
def splitPlace (s : WinState) (mtb mte : Option FileMappingTracker) (o : SplitOutcome) :
    WinState × SplitEnd :=
  match mtb with
  | none => s.splitPlaceEnd none mte o
  | some t =>
      match s.place t o.reserveMtb o.mapMtb with
      | (s, .inserted) => s.splitPlaceEnd mtb mte o
      | (s, _) => (s.splitErr mtb mte, .lost)

/-- The old mapping is given up: its view, its reservation and, unless something remains, its
handles. -/
def splitRelease (s : WinState) (mt : FileMappingTracker)
    (mtb mte : Option FileMappingTracker) : WinState :=
  let s := if 0 < mt.fileLen then s.unmapViewOfFile mt.baseAddress else s
  let s := s.releaseTail mt
  let s := if mtb.isNone ∧ mte.isNone then s.closeHandles mt else s
  { s with queue := s.queue.erase mt }

/-- The part of `mmap_split` after the new trackers are filled. -/
def splitUnmap (s : WinState) (mt : FileMappingTracker) (mtb mte : Option FileMappingTracker)
    (o : SplitOutcome) : WinState × SplitEnd :=
  if 0 < mt.fileLen ∧ ¬o.unmap then (s.splitErr mtb mte, .refused)
  else (s.splitRelease mt mtb mte).splitPlace mtb mte o

/-- `mmap_split`; `start` and `stop` lie in the range of the tracker. -/
def mmapSplit (s : WinState) (mt : FileMappingTracker) (start stop : Nat) (o : SplitOutcome) :
    WinState × SplitEnd :=
  let mtb := splitBegin mt start
  if mtb.isSome ∧ ¬o.mtbAlloc then (s, .refused)
  else if stop < mt.endAddress then
    if ¬o.mteAlloc then (s.splitErr mtb none, .refused)
    else if mtb.isNone then
      s.splitUnmap mt mtb (some (splitEnd mt stop mt.fileHandle mt.fileMappingHandle)) o
    else if ¬o.dupFile then
      (s.splitErr mtb (some { o.junk with fileHandle := none, fileMappingHandle := none }),
        .refused)
    else if ¬o.dupMapping then
      (s.openHandle.splitErr mtb
        (some { o.junk with fileHandle := some s.nextHandle, fileMappingHandle := none }),
        .refused)
    else
      s.openHandle.openHandle.splitUnmap mt mtb
        (some (splitEnd mt stop (some s.nextHandle) (some (s.nextHandle + 1)))) o
  else s.splitUnmap mt mtb none o

end WinState

/-! ## `munmap` -/

/-- `PMDK_SORTEDQ_NEXT`. -/
def following (mt : FileMappingTracker) : List FileMappingTracker → Option FileMappingTracker
  | [] => none
  | t :: rest => if t = mt then rest.head? else following mt rest

/-- The loop of `munmap`, from a tracker on; `none` when the fuel is not enough.  The result has
no length when a split failed, else what is left of it. -/
def munmapLoop (mmapAlign start stop : Nat) (outcomes : Nat → SplitOutcome) :
    Nat → WinState → Option FileMappingTracker → Nat → Option (WinState × Option Nat)
  | 0, _, _, _ => none
  | _ + 1, s, none, len => some (s, some len)
  | fuel + 1, s, some mt, len =>
      let next := following mt s.queue
      if mt.baseAddress ≥ stop then some (s, some len)
      else if mt.endAddress ≤ start then
        munmapLoop mmapAlign start stop outcomes fuel s next len
      else
        let start2 := if start > mt.baseAddress then start else mt.baseAddress
        let stop2 := if stop < mt.endAddress then stop else mt.endAddress
        match s.mmapSplit mt start2 (Word.ceil stop2 mmapAlign) (outcomes fuel) with
        | (s, .done) =>
            if len > stop2 - start2 then
              munmapLoop mmapAlign start stop outcomes fuel s next (len - (stop2 - start2))
            else some (s, some 0)
        | (s, _) => some (s, none)

/-- `len`, limited "to not get beyond address space". -/
def limitLen (addr len : Nat) : Nat :=
  if len > Word.modulus - 1 - addr then Word.modulus - 1 - addr else len

/-- `munmap`; `true` when it returns 0. -/
def munmap (mmapAlign : Nat) (s : WinState) (addr len : Nat) (outcomes : Nat → SplitOutcome)
    (fuel : Nat) : Option (WinState × Bool) :=
  if addr % mmapAlign ≠ 0 then some (s, false)
  else if len = 0 then some (s, false)
  else
    match munmapLoop mmapAlign addr (addr + limitLen addr len) outcomes fuel s s.queue.head?
        (limitLen addr len) with
    | none => none
    | some (s, none) => some (s, false)
    | some (s, some len) =>
        some (if len > 0 then s.mmapUnreserve addr (Word.ceil len mmapAlign) else s, true)

/-! ## `mmap` -/

/-- The bits of `prot` that `mmap` looks at, besides `PROT_EXEC`; `other` are bits outside of
`PROT_ALL`. -/
structure Prot where
  read : Bool
  write : Bool
  other : Bool

/-- The bits of `flags` that decide what is mapped. -/
structure MapFlags where
  mapPrivate : Bool
  mapShared : Bool
  fixed : Bool
  anon : Bool

/-- The arguments of `mmap`. -/
structure MmapArgs where
  addr : Nat
  len : Nat
  prot : Prot
  flags : MapFlags
  fd : Int
  offset : Int

/-- What the calls in `mmap` return. -/
structure MmapOutcome where
  /-- The calls in the `munmap` for `MAP_FIXED`. -/
  splits : Nat → SplitOutcome
  fuel : Nat
  dupFile : Bool
  /-- From `GetFileSizeEx`. -/
  fileSize : Option Nat
  /-- From `VirtualAlloc`. -/
  reserved : Option Nat
  createMapping : Bool
  /-- From the first `MapViewOfFileEx`. -/
  hinted : Option Nat
  /-- From the one without a hint. -/
  retried : Option Nat
  mtAlloc : Bool
  /-- `FILE_MAPPING_TRACKER_FLAG_DIRECT_MAPPED`, if the volume has DAX. -/
  volumeFlags : Nat

/-- `access`; none when `PAGE_NOACCESS` would be needed. -/
def Prot.access (prot : Prot) (flags : MapFlags) : Option FileMapAccess :=
  if prot.write then some (if flags.mapPrivate then .copy else .all)
  else if prot.read then some .read
  else none

/-- `filelen`: the part of the request that the file has. -/
def fileLenOf (size : Nat) (offset : Int) (len : Nat) : Nat :=
  if ((size : Int) - offset).toNat > len then len else ((size : Int) - offset).toNat

/-- The word that holds a signed offset. -/
def offsetWord (offset : Int) : Nat := (offset % Word.modulus).toNat

/-- The base that the two tries at `MapViewOfFileEx` come to. -/
def MmapOutcome.base (o : MmapOutcome) (addr : Nat) (fixed : Bool) : Option Nat :=
  match o.hinted with
  | some base => some base
  | none => if addr = 0 ∨ fixed then none else o.retried

/-- The tracker that `mmap` fills. -/
def newMapping (mmapAlign : Nat) (a : MmapArgs) (access : FileMapAccess) (o : MmapOutcome)
    (fh : Option Nat) (fmh : Nat) (offset : Int) (filelen base : Nat) : FileMappingTracker where
  fileHandle := fh
  fileMappingHandle := some fmh
  baseAddress := base
  endAddress := Word.add base (Word.ceil a.len mmapAlign)
  access := access
  offset := offsetWord offset
  fileLen := Word.ceil filelen mmapAlign
  flags := if fh.isSome then o.volumeFlags else 0

namespace WinState

/-- The part of `mmap` from `CreateFileMapping` on. -/
def mmapMap (mmapAlign pagesize : Nat) (s : WinState) (a : MmapArgs) (access : FileMapAccess)
    (fh : Option Nat) (offset : Int) (filelen addr : Nat) (o : MmapOutcome) :
    WinState × Option Nat :=
  if ¬o.createMapping then (s.closeHandle fh, none)
  else
    let fmh := s.nextHandle
    let s := s.openHandle
    match o.base addr a.flags.fixed with
    | none => ((s.closeHandle fh).closeHandle (some fmh), none)
    | some base =>
        -- `filelen` bytes, in whole pages; the tracker rounds them up to `Mmap_align`
        let s := s.mapViewOfFileEx base (Word.ceil filelen pagesize)
        if ¬o.mtAlloc then ((s.closeHandle fh).closeHandle (some fmh), none)
        else
          let mt := newMapping mmapAlign a access o fh fmh offset filelen base
          ({ s with queue := sortedqInsert mt s.queue }, some base)

/-- The part of `mmap` that looks at the file, with its handle. -/
def mmapFile (mmapAlign pagesize : Nat) (s : WinState) (a : MmapArgs) (access : FileMapAccess)
    (fh : Nat) (addr : Nat) (o : MmapOutcome) : WinState × Option Nat :=
  match o.fileSize with
  | none => (s.closeHandle (some fh), none)
  | some size =>
      if a.offset ≥ size then (s.closeHandle (some fh), none)
      else
        let filelen := fileLenOf size a.offset a.len
        if Word.add (offsetWord a.offset) a.len > size then
          match o.reserved with
          | none => (s.closeHandle (some fh), none)
          | some reserved =>
              let s := s.mmapReserve reserved (Word.ceil a.len mmapAlign)
              if addr ≠ reserved ∧ a.flags.fixed then
                ((s.mmapUnreserve reserved (Word.ceil a.len mmapAlign)).closeHandle (some fh),
                  none)
              else
                (s.mmapUnreserve reserved (Word.ceil filelen mmapAlign)).mmapMap mmapAlign pagesize
                  a access (some fh) a.offset filelen reserved o
        else s.mmapMap mmapAlign pagesize a access (some fh) a.offset filelen addr o

/-- The part of `mmap` behind the `munmap` for `MAP_FIXED`. -/
def mmapBody (mmapAlign pagesize : Nat) (s : WinState) (a : MmapArgs) (access : FileMapAccess)
    (addr : Nat) (o : MmapOutcome) : WinState × Option Nat :=
  if a.flags.anon then s.mmapMap mmapAlign pagesize a access none 0 a.len addr o
  else if a.fd = -1 then (s, none)
  else if ¬o.dupFile then (s, none)
  else s.openHandle.mmapFile mmapAlign pagesize a access s.nextHandle addr o

end WinState

/-- `mmap`; `none` in place of `MAP_FAILED`. -/
def mmap (mmapAlign pagesize : Nat) (s : WinState) (a : MmapArgs) (o : MmapOutcome) :
    Option (WinState × Option Nat) :=
  if a.len = 0 ∨ a.prot.other then some (s, none)
  else if a.flags.mapPrivate = a.flags.mapShared then some (s, none)
  else
    match a.prot.access a.flags with
    | none => some (s, none)
    | some access =>
        if a.addr % mmapAlign ≠ 0 ∧ a.flags.fixed then some (s, none)
        else
          let addr := if a.addr % mmapAlign ≠ 0 then 0 else a.addr
          if offsetWord a.offset % mmapAlign ≠ 0 then some (s, none)
          else if a.flags.fixed then
            match munmap mmapAlign s addr a.len o.splits o.fuel with
            | none => none
            | some (s, false) => some (s, none)
            | some (s, true) => some (s.mmapBody mmapAlign pagesize a access addr o)
          else some (s.mmapBody mmapAlign pagesize a access addr o)

end Windows
end Vmem
