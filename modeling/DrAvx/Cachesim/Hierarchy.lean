import DrAvx.Cachesim.Device
import DrAvx.Cachesim.SnoopFilter

/-!
# A hierarchy of caches

The caches form trees.  A request that misses is passed to the parent, a line that is evicted may be
passed to it as well, and an inclusive cache invalidates in its children what it evicts.  The caches
of one level may be snooped: a filter keeps track of which of them hold a line, and invalidates it
in all others when one of them writes to it.

All of this is recursion up and down the trees.  A function that goes up is given the list of the
caches it goes through, from the cache it is called on to the root; one that goes down is given the
height of the cache.  A request calls the prefetcher of the cache, and that requests the next line
of the same cache; as a prefetch is not followed by another one, this is done by passing what the
prefetcher does to `requestOn`, which first stands for nothing.

The log has the calls of the statistics object, and besides them what the properties of the
replacement policies are about: the requests passed to the parent (`forward`), the ways chosen for
replacement (`replace`) and the lines inserted (`fill`), with whether there was no invalid way in the
set at that time.  The newest event is the first one.
-/

set_option autoImplicit false

namespace DrAvx.Cachesim

/-! ## Memory references and events -/

/-- The kinds of references that `request` tells apart: `prefetch` stands for the types of software
prefetches, `instr` and `read` for all the others. -/
inductive TraceType
  | read
  | write
  | instr
  | prefetch
  | hardwarePrefetch
  deriving DecidableEq, Repr

/-- `type_is_prefetch`. -/
def TraceType.isPrefetch : TraceType → Bool
  | .prefetch | .hardwarePrefetch => true
  | .read | .write | .instr => false

/-- `memref_t`, with the fields that requests and flushes have. -/
structure Memref where
  type : TraceType
  addr : ℕ
  size : ℕ
  deriving DecidableEq, Repr

/-- The address of the last byte, in 64 bits. -/
def Memref.finalAddr (m : Memref) : ℕ := (m.addr + m.size + (2 ^ 64 - 1)) % 2 ^ 64

/-- `invalidation_type_t`. -/
inductive InvalidationType
  | inclusive
  | coherence
  | exclusive
  deriving DecidableEq, Repr

inductive Event (ι : Type)
  | access (c : ι) (m : Memref) (hit : Bool) (set way : ℕ)
  | childAccess (c : ι) (m : Memref) (hit : Bool)
  | invalidate (c : ι) (type : InvalidationType)
  | flush (c : ι) (m : Memref)
  | forward (c : ι) (m : Memref)
  | replace (c : ι) (set way : ℕ) (full : Bool)
  | fill (c : ι) (set way tag : ℕ) (full : Bool)
  deriving DecidableEq, Repr

/-! ## Hierarchies -/

/-- Caches with their parents and children.  The caches `snooped` are known to the filter by their
number, and none of them is above another one. -/
structure Hierarchy (ι : Type) (n : ℕ) where
  config : ι → Config
  /-- the parent, its parent and so on -/
  above : ι → List ι
  above_parent : ∀ {c p : ι} {up : List ι}, above c = p :: up → above p = up
  children : ι → List ι
  mem_children : ∀ {c p : ι}, c ∈ children p ↔ (above c).head? = some p
  height : ι → ℕ
  height_lt : ∀ {c p : ι}, c ∈ children p → height c < height p
  snooped : Fin n → ι
  snoopId : ι → Option (Fin n)
  snoopId_eq_some_iff : ∀ {c : ι} {i : Fin n}, snoopId c = some i ↔ snooped i = c
  snooped_apart : ∀ i j : Fin n, snooped i ∉ above (snooped j)

structure World (ι : Type) (n : ℕ) where
  device : ι → Device
  filter : SnoopFilter n
  log : List (Event ι)

section Code

variable {ι : Type} [DecidableEq ι] {n : ℕ}

namespace World

def modify (c : ι) (f : Device → Device) (w : World ι n) : World ι n :=
  { w with device := Function.update w.device c (f (w.device c)) }

def emit (e : Event ι) (w : World ι n) : World ι n := { w with log := e :: w.log }

/-- The last tag and its place are remembered. -/
def remember (c : ι) (tag way set : ℕ) (w : World ι n) : World ι n :=
  w.modify c fun d ↦ { d with lastTag := some tag, lastWay := way, lastSet := set }

/-- `snoop_filter_t::snoop_eviction`. -/
def snoopEviction (tag : ℕ) (id : Fin n) (w : World ι n) : World ι n :=
  { w with filter := w.filter.snoopEviction tag id }

end World

namespace Hierarchy

variable (H : Hierarchy ι n)

def init : World ι n := ⟨fun c ↦ Device.init (H.config c), SnoopFilter.init, []⟩

def find (c : ι) (tag : ℕ) (w : World ι n) : Option (ℕ × ℕ) := (w.device c).find (H.config c) tag

/-! ## One cache -/

/-- `access_update`. -/
def accessUpdate (c : ι) (set way : ℕ) (w : World ι n) : World ι n :=
  w.modify c (Device.accessUpdate (H.config c) set way)

/-- The way `replace_which_way` returns. -/
def wayToReplace (c : ι) (set : ℕ) (w : World ι n) : ℕ :=
  (w.device c).getNextWayToReplace (H.config c) set

/-- What `replace_which_way` does besides returning the way. -/
def replaceWhichWay (c : ι) (set : ℕ) (w : World ι n) : World ι n :=
  (w.modify c (Device.markReplaced (H.config c) set (H.wayToReplace c set w))).emit
    (.replace c set (H.wayToReplace c set w) ((w.device c).full (H.config c) set))

/-- What `invalidate` does with the block in which it has found the line. -/
def drop (c : ι) (tag set way : ℕ) (w : World ι n) : World ι n :=
  w.modify c (Device.drop (H.config c) tag set way)

/-- `update_tag` at the end of `insert_tag`. -/
def fill (c : ι) (set way tag : ℕ) (w : World ι n) : World ι n :=
  (w.modify c (Device.updateTag (H.config c) set way tag)).emit
    (.fill c set way tag ((w.device c).full (H.config c) set))

/-- `record_access_stats`.  A hit is counted by all caches above, a miss by the parent. -/
def recordAccessStats (c : ι) (m : Memref) (hit : Bool) (set way : ℕ) (w : World ι n) : World ι n :=
  (if hit then H.above c else (H.above c).take 1).foldl
    (fun w up ↦ w.emit (.childAccess up m hit)) (w.emit (.access c m hit set way))

/-! ## Going down -/

/-- `caching_device_t::invalidate`, with what is done with the children. -/
def invalidateWith (children : World ι n → World ι n) (c : ι) (tag : ℕ) (type : InvalidationType)
    (w : World ι n) : World ι n :=
  let w :=
    match H.find c tag w with
    | none => w
    | some (set, way) =>
      let w := (H.drop c tag set way w).emit (.invalidate c type)
      if type = .inclusive ∧ (H.config c).isInclusive = true then children w else w
  if type = .coherence then children w else w

/-- `caching_device_t::invalidate` on a cache of at most the given height.  A cache of height 0 has no
children. -/
def invalidateUpTo : ℕ → ι → ℕ → InvalidationType → World ι n → World ι n
  | 0, c, tag, type, w => H.invalidateWith (fun w ↦ w) c tag type w
  | height + 1, c, tag, type, w =>
    H.invalidateWith (fun w ↦
      (H.children c).foldl (fun w child ↦ invalidateUpTo height child tag type w) w) c tag type w

/-- `caching_device_t::invalidate`. -/
def invalidate (c : ι) (tag : ℕ) (type : InvalidationType) (w : World ι n) : World ι n :=
  H.invalidateUpTo (H.height c) c tag type w

/-- `caching_device_t::contains_tag` on a cache of at most the given height. -/
def containsTagUpTo : ℕ → ι → ℕ → World ι n → Bool
  | height, c, tag, w =>
    if (H.find c tag w).isSome then true
    else if (H.config c).isInclusive then false
    else
      match height with
      | 0 => false
      | height + 1 => (H.children c).any fun child ↦ containsTagUpTo height child tag w

/-- `caching_device_t::contains_tag`. -/
def containsTag (c : ι) (tag : ℕ) (w : World ι n) : Bool :=
  H.containsTagUpTo (H.height c) c tag w

/-- `snoop_filter_t::snoop`, with the invalidations in other caches. -/
def snoop (tag : ℕ) (id : Fin n) (isWrite : Bool) (w : World ι n) : World ι n :=
  { (w.filter.invalidated tag id isWrite).foldl
      (fun w i ↦ H.invalidate (H.snooped i) tag .coherence w) w with
    filter := w.filter.snoop tag id isWrite }

/-! ## Going up -/

/-- `caching_device_t::propagate_write`, called on the first cache of a list by its child. -/
def propagateWrite (tag : ℕ) : ι → List ι → World ι n → World ι n
  | _, [], w => w
  | requester, c :: up, w =>
    let w := ((H.children c).filter (· ≠ requester)).foldl
      (fun w child ↦ H.invalidate child tag .coherence w) w
    match H.snoopId c with
    | some id => H.snoop tag id true w
    | none => propagateWrite tag c up w

/-- The victim in `insert_tag` is invalidated in the children of an inclusive cache. -/
def evictFromChildren (c : ι) (victim : ℕ) (w : World ι n) : World ι n :=
  if (H.config c).isInclusive then
    (H.children c).foldl (fun w child ↦ H.invalidate child victim .inclusive w) w
  else w

/-- The eviction is made known to the filter.  The flag is `notify_parent_for_snoop`. -/
def notifyEviction (c : ι) (up : List ι) (victim : ℕ) (w : World ι n) : Bool × World ι n :=
  if (H.config c).coherentCache then
    match H.snoopId c with
    | some id => (false, w.snoopEviction victim id)
    | none => (!up.isEmpty, w)
  else (false, w)

/-- The eviction of the victim in `insert_tag`; `propagate` is `propagate_eviction` of the parent. -/
def evict (propagate : ℕ → World ι n → World ι n) (c : ι) (up : List ι) (victim : ℕ)
    (w : World ι n) : World ι n :=
  let w := H.evictFromChildren c victim w
  let pushVictimToParent := up.head?.any fun p ↦ (H.config p).isExclusive
  if (H.config c).coherentCache ∨ pushVictimToParent then
    if (H.children c).any fun child ↦ H.containsTag child victim w then w
    else
      let r := H.notifyEviction c up victim w
      if r.1 ∨ pushVictimToParent then propagate victim r.2 else r.2
  else w

/-- The insertion is made known to the filter. -/
def snoopInsertion (c : ι) (tag : ℕ) (isWrite : Bool) (w : World ι n) : World ι n :=
  match H.snoopId c with
  | some id => H.snoop tag id isWrite w
  | none => w

/-- `caching_device_t::insert_tag`. -/
def insertTag (propagate : ℕ → World ι n → World ι n) (c : ι) (up : List ι) (tag : ℕ)
    (isWrite : Bool) (way set : ℕ) (w : World ι n) : World ι n :=
  let w := H.snoopInsertion c tag isWrite w
  let w :=
    match (w.device c).tag set way with
    | none => w.modify c fun d ↦ { d with loadedBlocks := d.loadedBlocks + 1 }
    | some victim => H.evict propagate c up victim w
  H.fill c set way tag w

/-- `caching_device_t::propagate_eviction`, called on the first cache of a list by its child. -/
def propagateEviction : ι → List ι → ℕ → World ι n → World ι n
  | _, [], _, w => w
  | requester, c :: up, tag, w =>
    if (H.find c tag w).isSome then w
    else if (H.children c).length ≠ 1 ∧
        (H.children c).any (fun child ↦ decide (child ≠ requester) && H.containsTag child tag w) then
      w
    else if (H.config c).isExclusive then
      let set := (H.config c).computeSet tag
      let way := H.wayToReplace c set w
      H.insertTag (propagateEviction c up) c up tag false way set (H.replaceWhichWay c set w)
    else
      match H.snoopId c with
      | some id => w.snoopEviction tag id
      | none => propagateEviction c up tag w

/-! ## Requests -/

/-- The part of a reference that is in the block of `tag`. -/
def piece (g : Config) (tag finalTag : ℕ) (m : Memref) : Memref :=
  if tag + 1 ≤ finalTag then
    { m with size := ((tag + 1) <<< g.blockSizeBits + (2 ^ 64 - m.addr)) % 2 ^ 64 }
  else m

/-- The part of a reference that is left after the block of `tag`. -/
def nextPiece (g : Config) (tag finalTag finalAddr : ℕ) (m : Memref) : Memref :=
  if tag + 1 ≤ finalTag then
    let nextAddr := (tag + 1) <<< g.blockSizeBits
    { m with addr := nextAddr, size := (finalAddr + (2 ^ 64 - nextAddr) + 1) % 2 ^ 64 }
  else m

/-- The end of the body of the loop of `request`. -/
def finish (prefetch : Memref → World ι n → World ι n) (c : ι) (tag set way : ℕ) (missed : Bool)
    (m : Memref) (w : World ι n) : World ι n :=
  let w := H.accessUpdate c set way w
  let w := if missed ∧ m.type.isPrefetch = false then prefetch m w else w
  w.remember c tag way set

/-- A write that hits is made known to the filter or to the parent. -/
def propagateHit (c : ι) (up : List ι) (tag : ℕ) (m : Memref) (w : World ι n) : World ι n :=
  if (H.config c).coherentCache ∧ m.type = .write then
    match H.snoopId c with
    | some id => H.snoop tag id true w
    | none => H.propagateWrite tag c up w
  else w

/-- The body of the loop of `request` where the line was found in the block `(set, way)`. -/
def hitBlock (prefetch : Memref → World ι n → World ι n) (c : ι) (up : List ι) (tag set way : ℕ)
    (m : Memref) (w : World ι n) : Bool × World ι n :=
  let g := H.config c
  let w := H.propagateHit c up tag m (H.recordAccessStats c m true set way w)
  -- a hit in an exclusive cache hands the line to the child
  if g.isExclusive ∧ H.children c ≠ [] then (false, H.invalidate c tag .exclusive w)
  else (true, H.finish prefetch c tag (g.computeSet tag) way false m w)

/-- A miss up to the insertion of the line: a way is chosen, the miss is counted, and the parent is
asked. -/
def askParent (parentRequest : Memref → World ι n → World ι n) (c : ι) (up : List ι) (set : ℕ)
    (m : Memref) (w : World ι n) : World ι n :=
  let w := H.recordAccessStats c m false set (H.wayToReplace c set w) (H.replaceWhichWay c set w)
  if up.isEmpty then w else parentRequest m (w.emit (.forward c m))

/-- The body of the loop of `request` where the line was not found. -/
def missBlock (parentRequest prefetch : Memref → World ι n → World ι n) (c : ι) (up : List ι)
    (tag : ℕ) (m : Memref) (w : World ι n) : Bool × World ι n :=
  let g := H.config c
  let set := g.computeSet tag
  let way := H.wayToReplace c set w
  let w := H.askParent parentRequest c up set m w
  -- exclusive caches only insert what a child has evicted
  if g.isExclusive then (false, w)
  else
    let w := H.insertTag (H.propagateEviction c up) c up tag (m.type == .write) way set w
    (true, H.finish prefetch c tag set way true m w)

/-- The loop of `request`, with the number of blocks that are left.  Where the body ends with
`continue`, the reference stays as it is. -/
def requestLoop (parentRequest prefetch : Memref → World ι n → World ι n) (c : ι) (up : List ι)
    (finalTag finalAddr : ℕ) : ℕ → ℕ → Memref → World ι n → World ι n
  | 0, _, _, w => w
  | left + 1, tag, m, w =>
    let g := H.config c
    let m := piece g tag finalTag m
    let r :=
      match H.find c tag w with
      | some (set, way) => H.hitBlock prefetch c up tag set way m w
      | none => H.missBlock parentRequest prefetch c up tag m w
    let m := if r.1 then nextPiece g tag finalTag finalAddr m else m
    requestLoop parentRequest prefetch c up finalTag finalAddr left (tag + 1) m r.2

/-- `caching_device_t::request`, with what the parent and the prefetcher do. -/
def requestOn (parentRequest prefetch : Memref → World ι n → World ι n) (c : ι) (up : List ι)
    (m : Memref) (w : World ι n) : World ι n :=
  let g := H.config c
  let tag := g.computeTag m.addr
  let finalTag := g.computeTag m.finalAddr
  let d := w.device c
  if tag = finalTag ∧ d.lastTag = some tag ∧ m.type ≠ .write then
    H.accessUpdate c d.lastSet d.lastWay
      (H.recordAccessStats c m true d.lastSet d.lastWay w)
  else
    H.requestLoop parentRequest prefetch c up finalTag m.finalAddr (finalTag + 1 - tag) tag m w

/-- `prefetcher_t::prefetch`: the next line is requested. -/
def prefetch (request : Memref → World ι n → World ι n) (c : ι) (m : Memref) (w : World ι n) :
    World ι n :=
  match (H.config c).prefetcher with
  | none => w
  | some p => request ⟨.hardwarePrefetch, (m.addr + p.blockSize) % 2 ^ 64, m.size⟩ w

/-- `caching_device_t::request` on the first cache of a list. -/
def requestFrom : List ι → Memref → World ι n → World ι n
  | [], _, w => w
  | c :: up, m, w =>
    let plain := H.requestOn (requestFrom up) (fun _ w ↦ w) c up
    H.requestOn (requestFrom up) (H.prefetch plain c) c up m w

/-- `caching_device_t::request`. -/
def request (c : ι) (m : Memref) (w : World ι n) : World ι n := H.requestFrom (c :: H.above c) m w

/-! ## Flushes -/

/-- The tags of the lines that a flush is about. -/
def flushTags (g : Config) (m : Memref) : List ℕ :=
  let tag := g.computeTag m.addr
  List.range' tag (g.computeTag m.finalAddr + 1 - tag)

/-- The body of the loop of `cache_t::flush`. -/
def flushTag (c : ι) (w : World ι n) (tag : ℕ) : World ι n :=
  match H.find c tag w with
  | none => w
  | some (set, way) => w.modify c (Device.invalidateBlock (H.config c) set way)

/-- `cache_t::flush` on the first cache of a list. -/
def flushFrom : List ι → Memref → World ι n → World ι n
  | [], _, w => w
  | c :: up, m, w =>
    let w := w.modify c fun d ↦ { d with lastTag := none }
    let w := (flushTags (H.config c) m).foldl (H.flushTag c) w
    (flushFrom up m w).emit (.flush c m)

/-- `cache_t::flush`. -/
def flush (c : ι) (m : Memref) (w : World ι n) : World ι n := H.flushFrom (c :: H.above c) m w

end Hierarchy

/-! ## Runs -/

/-- What is done with a hierarchy from outside. -/
inductive Op (ι : Type)
  | request (c : ι) (m : Memref)
  | invalidate (c : ι) (tag : ℕ) (type : InvalidationType)
  | flush (c : ι) (m : Memref)

namespace Hierarchy

variable (H : Hierarchy ι n)

def step (w : World ι n) : Op ι → World ι n
  | .request c m => H.request c m w
  | .invalidate c tag type => H.invalidate c tag type w
  | .flush c m => H.flush c m w

def run (ops : List (Op ι)) : World ι n := ops.foldl H.step H.init

end Hierarchy

end Code

end DrAvx.Cachesim
