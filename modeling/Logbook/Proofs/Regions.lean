import Logbook.Proofs.Segment
set_option autoImplicit false

/-!
# Segments in memory

A source has a state for every number of segments that were handed out, and this says where each of
them lies: side by side in their regions, one region after the other. So no two share a byte.
`Arena` puts them into the memory of the regions, where segments are written and dropped at any time,
and `Lease` holds each segment as a value of its own; both hold the same bytes.
-/
namespace Logbook

/-! ## The layout -/

namespace RegionLayout

/-- The number of segments is halved as long as the region is too large and no longer. -/
theorem exists_fitCount_eq (size count : Nat) :
    ∃ halvings, fitCount size count = count / Nat.pow 2 halvings ∧
      ∀ fewer < halvings, maxRegionSize < count / Nat.pow 2 fewer * size := by
  fun_induction fitCount size count with
  | case1 count hlarge ih =>
    obtain ⟨halvings, heq, hfewer⟩ := ih
    have hhalf : ∀ n, count / 2 / Nat.pow 2 n = count / Nat.pow 2 (n + 1) := by
      intro n
      rw [Nat.div_div_eq_div_mul, Nat.mul_comm]
      rfl
    refine ⟨halvings + 1, heq.trans (hhalf halvings), fun fewer hlt => ?_⟩
    cases fewer with
    | zero =>
      have hnone : count / Nat.pow 2 0 = count := Nat.div_one count
      rw [hnone]
      exact (exceeds_iff count size).1 hlarge.2
    | succ fewer =>
      rw [← hhalf]
      exact hfewer fewer (Nat.lt_of_succ_lt_succ hlt)
  | case2 count hsmall =>
    exact ⟨0, (Nat.div_one count).symm, fun fewer hlt => absurd hlt (Nat.not_lt_zero fewer)⟩

theorem fitCount_pos (size : Nat) {count : Nat} (h : 0 < count) : 0 < fitCount size count := by
  fun_induction fitCount size count with
  | case1 count hlarge ih => exact ih (by omega)
  | case2 => exact h

theorem fitCount_fits {size count : Nat} (h : size ≤ maxRegionSize) (hcount : 0 < count) :
    fitCount size count * size ≤ maxRegionSize := by
  fun_induction fitCount size count with
  | case1 count hlarge ih => exact ih (by omega)
  | case2 count hsmall =>
    rw [exceeds_iff] at hsmall
    by_cases hone : count = 1
    · rw [hone, Nat.one_mul]
      exact h
    · omega

/-! ## Where segments lie -/

variable {layout : RegionLayout}

def place (layout : RegionLayout) (number : Nat) : Extent :=
  ⟨number / layout.count, number % layout.count * layout.size, layout.size⟩

def sourceAfter (layout : RegionLayout) : Nat → SegmentSource
  | 0 => { layout }
  | last + 1 =>
    let issued := last % layout.count + 1
    { layout
      rest := some ⟨last / layout.count, issued * layout.size,
        (layout.count - issued) * layout.size⟩
      issued
      regions := last / layout.count + 1 }

theorem split?_region (layout : RegionLayout) (region : Nat) {issued : Nat} (h : issued < layout.count) :
    Extent.split? ⟨region, issued * layout.size, (layout.count - issued) * layout.size⟩
        layout.size =
      some (⟨region, issued * layout.size, layout.size⟩,
        ⟨region, (issued + 1) * layout.size, (layout.count - (issued + 1)) * layout.size⟩) := by
  have hleft : layout.count - issued = layout.count - (issued + 1) + 1 := by omega
  rw [Extent.split?, if_pos]
  · simp only [hleft, Nat.add_mul, Nat.one_mul, Nat.add_sub_cancel]
  · simp only [hleft, Nat.add_mul, Nat.one_mul]
    exact Nat.le_add_left _ _

theorem succ_div_mod_of_lt {last count : Nat} (h : last % count + 1 < count) :
    (last + 1) / count = last / count ∧ (last + 1) % count = last % count + 1 := by
  have hlast : last + 1 = count * (last / count) + (last % count + 1) := by
    rw [← Nat.add_assoc, Nat.div_add_mod]
  constructor
  · rw [hlast, Nat.mul_add_div (by omega), Nat.div_eq_of_lt h, Nat.add_zero]
  · rw [hlast, Nat.mul_add_mod, Nat.mod_eq_of_lt h]

theorem succ_div_mod_of_eq {last count : Nat} (h : last % count + 1 = count) :
    (last + 1) / count = last / count + 1 ∧ (last + 1) % count = 0 := by
  have hlast : last + 1 = count * (last / count) + count := by
    have hdiv := Nat.div_add_mod last count
    omega
  constructor
  · rw [hlast, Nat.mul_add_div (by omega), Nat.div_self (by omega)]
  · rw [hlast, Nat.mul_add_mod, Nat.mod_self]

theorem current_sourceAfter (hcount : 0 < layout.count) (number : Nat) :
    (layout.sourceAfter number).current =
      let issued := number % layout.count
      (⟨number / layout.count, issued * layout.size, (layout.count - issued) * layout.size⟩,
        { layout, rest := (layout.sourceAfter number).rest, issued,
          regions := number / layout.count + 1 }) := by
  cases number with
  | zero =>
    rw [SegmentSource.current, sourceAfter, ite_self, Nat.zero_mod, Nat.zero_div]
    simp only [Nat.zero_mul]
    rfl
  | succ last =>
    rw [SegmentSource.current, sourceAfter]
    by_cases hused : last % layout.count + 1 = layout.count
    · obtain ⟨hdiv, hmod⟩ := succ_div_mod_of_eq hused
      simp only [hused, ↓reduceIte, hdiv, hmod, Nat.zero_mul]
      rfl
    · have hlt : last % layout.count + 1 < layout.count := by
        have := Nat.mod_lt last hcount
        omega
      obtain ⟨hdiv, hmod⟩ := succ_div_mod_of_lt hlt
      simp only [hused, ↓reduceIte, hdiv, hmod]

theorem next?_sourceAfter (hcount : 0 < layout.count) (number : Nat) :
    (layout.sourceAfter number).next? =
      some (layout.place number, layout.sourceAfter (number + 1)) := by
  have hsplit := layout.split?_region (number / layout.count) (Nat.mod_lt number hcount)
  rw [SegmentSource.next?, current_sourceAfter hcount]
  simp only [hsplit]
  rfl

theorem regions_sourceAfter (hcount : 0 < layout.count) (number : Nat) :
    (layout.sourceAfter number).regions = (number + layout.count - 1) / layout.count := by
  cases number with
  | zero =>
    rw [Nat.zero_add, Nat.div_eq_of_lt (Nat.sub_lt hcount Nat.one_pos)]
    rfl
  | succ last =>
    have hlast : last + 1 + layout.count - 1 = last + layout.count := by omega
    rw [hlast, Nat.add_div_right last hcount]
    rfl

theorem div_lt_regions {layout : RegionLayout} {number handedOut : Nat} (h : number < handedOut) :
    number / layout.count < (layout.sourceAfter handedOut).regions := by
  cases handedOut with
  | zero => exact absurd h (Nat.not_lt_zero number)
  | succ last => exact Nat.lt_succ_of_le (Nat.div_le_div_right (Nat.le_of_lt_succ h))

theorem regions_mul_count (hcount : 0 < layout.count) {number : Nat}
    (h : (layout.sourceAfter (number + 1)).regions ≠ (layout.sourceAfter number).regions) :
    (layout.sourceAfter number).regions * layout.count = number := by
  cases number with
  | zero => exact Nat.zero_mul _
  | succ last =>
    simp only [sourceAfter, ne_eq, Nat.add_right_cancel_iff] at h ⊢
    have hused : last % layout.count + 1 = layout.count := by
      have hlt := Nat.mod_lt last hcount
      by_cases hused : last % layout.count + 1 = layout.count
      · exact hused
      · exact absurd (succ_div_mod_of_lt (by omega)).1 h
    have hdiv := Nat.div_add_mod last layout.count
    rw [Nat.add_mul, Nat.one_mul, Nat.mul_comm]
    omega

end RegionLayout

/-! ## Disjoint bytes -/

namespace Extent

def Disjoint (a b : Extent) : Prop :=
  a.region ≠ b.region ∨ a.start + a.size ≤ b.start ∨ b.start + b.size ≤ a.start

end Extent

namespace RegionLayout

variable {layout : RegionLayout}

theorem disjoint_place {a b : Nat} (h : a ≠ b) : (layout.place a).Disjoint (layout.place b) := by
  by_cases hregion : a / layout.count = b / layout.count
  · right
    have hmod : a % layout.count ≠ b % layout.count := fun hmod =>
      h (by rw [← Nat.div_add_mod a layout.count, hregion, hmod, Nat.div_add_mod])
    have hbehind : ∀ m n : Nat, m < n → m * layout.size + layout.size ≤ n * layout.size := by
      intro m n hlt
      rw [← Nat.succ_mul]
      exact Nat.mul_le_mul_right _ hlt
    rcases Nat.lt_or_gt_of_ne hmod with hlt | hlt
    · exact .inl (hbehind _ _ hlt)
    · exact .inr (hbehind _ _ hlt)
  · exact .inl hregion

end RegionLayout

/-! ## Segments as values -/

/-- What is done with segments: one more is handed out, bytes are written into one from a position on,
or one is dropped. -/
inductive SegmentRequest where
  | get
  | write (number position : Nat) (bytes : List UInt8)
  | drop (number : Nat)

namespace SegmentRequest

def isGet : SegmentRequest → Bool
  | .get => true
  | _ => false

def gets (requests : List SegmentRequest) : Nat := requests.countP isGet

end SegmentRequest

structure Lease where
  segment : Segment
  live : Bool := true

namespace Lease

/-- No segment is written after it was dropped or beyond its end. -/
def write (lease : Lease) (position : Nat) (bytes : List UInt8) : Lease :=
  if lease.live ∧ position + bytes.length ≤ lease.segment.size then
    { lease with segment := lease.segment.write position bytes }
  else lease

def drop (lease : Lease) : Lease := { lease with live := false }

def act (size : Nat) (leases : List Lease) : SegmentRequest → List Lease
  | .get => leases ++ [{ segment := Segment.zeroed size }]
  | .write number position bytes => leases.modify number (·.write position bytes)
  | .drop number => leases.modify number drop

def run (size : Nat) (requests : List SegmentRequest) : List Lease := requests.foldl (act size) []

def segmentAt (size : Nat) (leases : List Lease) (number : Nat) : Segment :=
  (leases[number]?.map segment).getD (Segment.zeroed size)

end Lease

/-! ## Segments in the memory of their regions -/

abbrev RegionMemory := Nat → Nat → UInt8

namespace RegionMemory

def read (memory : RegionMemory) (e : Extent) : List UInt8 :=
  (List.range e.size).map fun offset => memory e.region (e.start + offset)

def write (memory : RegionMemory) (region start : Nat) (bytes : List UInt8) : RegionMemory := fun r place =>
  if r = region ∧ start ≤ place then bytes[place - start]?.getD (memory r place)
  else memory r place

/-- Regions are zero when they are allocated, from the one numbered `first` to before `next`. -/
def allocate (memory : RegionMemory) (first next : Nat) : RegionMemory := fun r place =>
  if first ≤ r ∧ r < next then 0 else memory r place

end RegionMemory

structure Handout where
  extent : Extent
  live : Bool := true

structure Arena where
  source : SegmentSource
  memory : RegionMemory
  handouts : List Handout := []

namespace Arena

def act? (arena : Arena) : SegmentRequest → Option Arena
  | .get => arena.source.next?.map fun (extent, source) =>
    { source
      memory := arena.memory.allocate arena.source.regions source.regions
      handouts := arena.handouts ++ [{ extent }] }
  | .write number position bytes =>
    match arena.handouts[number]? with
    | some ⟨extent, true⟩ =>
      if position + bytes.length ≤ extent.size then
        some { arena with
          memory := arena.memory.write extent.region (extent.start + position) bytes }
      else some arena
    | _ => some arena
  | .drop number =>
    some { arena with handouts := arena.handouts.modify number fun h => { h with live := false } }

def run? (arena : Arena) (requests : List SegmentRequest) : Option Arena :=
  requests.foldlM act? arena

def held (arena : Arena) : List (List UInt8 × Bool) :=
  arena.handouts.map fun h => (arena.memory.read h.extent, h.live)

end Arena

/-! ### Reading and writing -/

namespace RegionMemory

variable {memory : RegionMemory} {e : Extent} {position : Nat} {bytes : List UInt8}

theorem length_read (memory : RegionMemory) (e : Extent) : (memory.read e).length = e.size := by
  rw [read, List.length_map, List.length_range]

theorem getElem_read {offset : Nat} (h : offset < (memory.read e).length) :
    (memory.read e)[offset] = memory e.region (e.start + offset) := by
  simp only [read, List.getElem_map, List.getElem_range]

theorem read_write (h : position + bytes.length ≤ e.size) :
    (memory.write e.region (e.start + position) bytes).read e =
      (memory.read e).take position ++ bytes ++
        (memory.read e).drop (position + bytes.length) := by
  have hlength := memory.length_read e
  apply List.ext_getElem
  · simp only [length_read, List.length_append, List.length_take, List.length_drop]
    omega
  · intro offset hoffset _
    rw [getElem_read, write]
    have htake : ((memory.read e).take position).length = position := by
      rw [List.length_take, hlength]
      omega
    have hwritten : ((memory.read e).take position ++ bytes).length = position + bytes.length := by
      rw [List.length_append, htake]
    by_cases hbefore : offset < position
    · rw [if_neg (by omega), List.getElem_append_left (by omega),
        List.getElem_append_left (by omega), List.getElem_take, getElem_read]
    · rw [if_pos (by omega), Nat.add_sub_add_left]
      by_cases hwithin : offset - position < bytes.length
      · rw [List.getElem_append_left (by omega), List.getElem_append_right (by omega)]
        simp only [htake, List.getElem?_eq_getElem hwithin, Option.getD_some]
      · have hoff : position + bytes.length + (offset - (position + bytes.length)) = offset := by
          omega
        rw [List.getElem_append_right (by omega), List.getElem_drop, getElem_read,
          List.getElem?_eq_none (by omega), Option.getD_none]
        simp only [hwritten, hoff]

theorem read_write_of_disjoint {other : Extent} (hdisjoint : e.Disjoint other)
    (h : position + bytes.length ≤ e.size) :
    (memory.write e.region (e.start + position) bytes).read other = memory.read other := by
  apply List.map_congr_left
  intro offset hoffset
  have hlt := List.mem_range.1 hoffset
  rw [write]
  by_cases hwindow : other.region = e.region ∧ e.start + position ≤ other.start + offset
  · -- the place is behind all that is written
    have hbehind : bytes.length ≤ other.start + offset - (e.start + position) := by
      rcases hdisjoint with hregion | hafter | hbefore
      · exact absurd hwindow.1.symm hregion
      · omega
      · omega
    rw [if_pos hwindow, List.getElem?_eq_none hbehind, Option.getD_none]
  · rw [if_neg hwindow]

theorem read_allocate (memory : RegionMemory) (first next : Nat) (e : Extent) :
    (memory.allocate first next).read e =
      if first ≤ e.region ∧ e.region < next then List.replicate e.size 0 else memory.read e := by
  simp only [read, allocate]
  split
  · rw [List.map_const', List.length_range]
  · rfl

end RegionMemory

namespace Segment

theorem bytes_zeroed (size : Nat) : (zeroed size).bytes = List.replicate size 0 := by
  simp only [bytes, firstBytes, zeroed, List.take_nil, List.nil_append, List.size_toArray,
    List.length_nil, Nat.sub_zero]

theorem bytes_write {s : Segment} {position : Nat} {bytes : List UInt8}
    (h : position + bytes.length ≤ s.size) :
    (s.write position bytes).bytes =
      s.bytes.take position ++ bytes ++ s.bytes.drop (position + bytes.length) :=
  s.firstBytes_write_within h

end Segment

/-! ## Both hold the same bytes -/

namespace Lease

variable {size : Nat} {leases : List Lease}

theorem length_foldl_act (size : Nat) (leases : List Lease) (requests : List SegmentRequest) :
    (requests.foldl (act size) leases).length = leases.length + SegmentRequest.gets requests := by
  induction requests generalizing leases with
  | nil => rfl
  | cons request rest ih =>
    rw [List.foldl_cons, ih, SegmentRequest.gets, SegmentRequest.gets, List.countP_cons]
    cases request with
    | get =>
      rw [act, List.length_append, List.length_singleton, Nat.add_assoc, Nat.add_comm 1]
      rfl
    | write | drop =>
      rw [act, List.length_modify]
      rfl

theorem segmentAt_append_zeroed (size : Nat) (leases : List Lease) (number : Nat) :
    segmentAt size (leases ++ [{ segment := Segment.zeroed size }]) number =
      segmentAt size leases number := by
  rw [segmentAt, segmentAt, List.getElem?_append]
  split
  · rfl
  · rename_i hge
    rw [List.getElem?_eq_none (Nat.le_of_not_lt hge)]
    cases hnext : number - leases.length with
    | zero => rfl
    | succ n => rfl

theorem live_write (lease : Lease) (position : Nat) (bytes : List UInt8) :
    (lease.write position bytes).live = lease.live := by
  rw [write]
  split <;> rfl

theorem size_write (lease : Lease) (position : Nat) (bytes : List UInt8) :
    (lease.write position bytes).segment.size = lease.segment.size := by
  rw [write]
  split <;> rfl

theorem modify_write_of_refused {number position : Nat} {bytes : List UInt8}
    (h : ∀ lease, leases[number]? = some lease →
      ¬(lease.live ∧ position + bytes.length ≤ lease.segment.size)) :
    leases.modify number (·.write position bytes) = leases := by
  apply List.ext_getElem?
  intro other
  rw [List.getElem?_modify]
  cases hlease : leases[other]? with
  | none => rfl
  | some lease =>
    by_cases heq : number = other
    · have hsame : lease.write position bytes = lease := if_neg (h lease (heq ▸ hlease))
      simp only [heq, ↓reduceIte, Option.map_eq_map, Option.map_some, hsame]
    · simp only [heq, ↓reduceIte, Option.map_eq_map, Option.map_some]

theorem segmentAt_of_getElem? {number : Nat} {lease : Lease} (h : leases[number]? = some lease) :
    segmentAt size leases number = lease.segment := by
  rw [segmentAt, h]
  rfl

theorem segmentAt_modify_of_ne {number other : Nat} (h : number ≠ other) (f : Lease → Lease) :
    segmentAt size (leases.modify number f) other = segmentAt size leases other := by
  rw [segmentAt, segmentAt, List.getElem?_modify]
  simp only [h, ↓reduceIte, Option.map_eq_map, Option.map_id_fun', id_eq]

theorem segmentAt_modify {f : Lease → Lease} (h : ∀ lease, (f lease).segment = lease.segment)
    (number other : Nat) :
    segmentAt size (leases.modify number f) other = segmentAt size leases other := by
  rw [segmentAt, segmentAt, List.getElem?_modify]
  cases leases[other]? with
  | none => rfl
  | some lease => by_cases heq : number = other <;> simp [heq, h]

theorem segmentAt_of_length_le {number : Nat} (h : leases.length ≤ number) :
    segmentAt size leases number = Segment.zeroed size := by
  rw [segmentAt, List.getElem?_eq_none h]
  rfl

end Lease

/-- After the same requests an arena has the segments of a source where they belong, with the bytes
that they have as values; what is not handed out yet of a region is zero. -/
structure Arena.Agrees (arena : Arena) (layout : RegionLayout) (leases : List Lease) : Prop where
  source_eq : arena.source = layout.sourceAfter leases.length
  handouts_eq : arena.handouts = leases.mapIdx fun number lease => ⟨layout.place number, lease.live⟩
  size_eq : ∀ lease ∈ leases, lease.segment.size = layout.size
  read_eq : ∀ number, number / layout.count < arena.source.regions →
    arena.memory.read (layout.place number) = (Lease.segmentAt layout.size leases number).bytes

namespace Arena

variable {arena : Arena} {layout : RegionLayout} {leases : List Lease}

theorem agrees_start (layout : RegionLayout) (memory : RegionMemory) :
    Agrees { source := { layout }, memory } layout [] where
  source_eq := rfl
  handouts_eq := rfl
  size_eq := nofun
  read_eq := fun _ h => absurd h (Nat.not_lt_zero _)

theorem Agrees.act_get (h : arena.Agrees layout leases) (hcount : 0 < layout.count) :
    ∃ arena', arena.act? .get = some arena' ∧
      arena'.Agrees layout (Lease.act layout.size leases .get) := by
  have hnext := layout.next?_sourceAfter hcount leases.length
  rw [← h.source_eq] at hnext
  have hlength : (Lease.act layout.size leases .get).length = leases.length + 1 :=
    List.length_append
  refine ⟨_, by rw [act?, hnext]; rfl, ⟨?_, ?_, ?_, ?_⟩⟩
  · rw [hlength]
  · rw [Lease.act, List.mapIdx_concat, ← h.handouts_eq]
  · intro lease hlease
    rcases List.mem_append.1 hlease with hold | hnew
    · exact h.size_eq lease hold
    · rw [List.mem_singleton.1 hnew]
      rfl
  · intro number hnumber
    rw [RegionMemory.read_allocate, Lease.act, Lease.segmentAt_append_zeroed]
    split
    · -- the region is new, so the segment was not handed out
      rename_i hnew
      have hlate : leases.length ≤ number := by
        refine Nat.le_of_not_lt fun hlt => ?_
        have hregion := layout.div_lt_regions hlt
        rw [← h.source_eq] at hregion
        exact absurd hregion (Nat.not_lt_of_le hnew.1)
      rw [Lease.segmentAt_of_length_le hlate, Segment.bytes_zeroed]
      rfl
    · rename_i hold
      exact h.read_eq number (Nat.lt_of_not_le fun hle => hold ⟨hle, hnumber⟩)

/-- What is done to one segment changes its bytes and whether it is in use, and nothing else. -/
theorem Agrees.modify (h : arena.Agrees layout leases) {number : Nat} {f : Lease → Lease}
    {g : Handout → Handout}
    (hlive : ∀ extent lease, g ⟨extent, lease.live⟩ = ⟨extent, (f lease).live⟩)
    (hsize : ∀ lease, (f lease).segment.size = lease.segment.size) {memory : RegionMemory}
    (hread : ∀ other, other / layout.count < arena.source.regions →
      memory.read (layout.place other) =
        (Lease.segmentAt layout.size (leases.modify number f) other).bytes) :
    Agrees { arena with memory, handouts := arena.handouts.modify number g } layout
      (leases.modify number f) where
  source_eq := by rw [List.length_modify, ← h.source_eq]
  handouts_eq := by
    rw [h.handouts_eq]
    apply List.ext_getElem?
    intro other
    simp only [List.getElem?_mapIdx, List.getElem?_modify]
    cases leases[other]? with
    | none => rfl
    | some lease => by_cases heq : number = other <;> simp [heq, hlive]
  size_eq := by
    intro lease hlease
    obtain ⟨other, hother⟩ := List.mem_iff_getElem?.1 hlease
    rw [List.getElem?_modify] at hother
    obtain ⟨old, hold, rfl⟩ := Option.map_eq_some_iff.1 hother
    have hsame := h.size_eq old (List.mem_iff_getElem?.2 ⟨other, hold⟩)
    by_cases heq : number = other <;> simp [heq, hsize, hsame]
  read_eq := hread

theorem Agrees.read_write (h : arena.Agrees layout leases) {number position : Nat}
    {bytes : List UInt8} {segment : Segment} (hlease : leases[number]? = some ⟨segment, true⟩)
    (hfits : position + bytes.length ≤ layout.size) {other : Nat}
    (hother : other / layout.count < arena.source.regions) :
    (arena.memory.write (layout.place number).region ((layout.place number).start + position)
        bytes).read (layout.place other) =
      (Lease.segmentAt layout.size (leases.modify number (·.write position bytes)) other).bytes := by
  have hsize : segment.size = layout.size :=
    h.size_eq ⟨segment, true⟩ (List.mem_of_getElem? hlease)
  have hread := h.read_eq other hother
  by_cases heq : number = other
  · subst heq
    have hnew : (leases.modify number (·.write position bytes))[number]? =
        some ⟨segment.write position bytes, true⟩ := by
      rw [List.getElem?_modify, hlease]
      simp [Lease.write, hsize, hfits]
    rw [Lease.segmentAt_of_getElem? hlease] at hread
    rw [RegionMemory.read_write hfits, hread, Lease.segmentAt_of_getElem? hnew,
      Segment.bytes_write (by rw [hsize]; exact hfits)]
  · have hdisjoint := @RegionLayout.disjoint_place layout _ _ heq
    rw [RegionMemory.read_write_of_disjoint hdisjoint hfits, hread,
      Lease.segmentAt_modify_of_ne heq]

theorem Agrees.act_write (h : arena.Agrees layout leases) (number position : Nat)
    (bytes : List UInt8) :
    ∃ arena', arena.act? (.write number position bytes) = some arena' ∧
      arena'.Agrees layout (Lease.act layout.size leases (.write number position bytes)) := by
  have hhandout : arena.handouts[number]? =
      leases[number]?.map fun lease => ⟨layout.place number, lease.live⟩ := by
    rw [h.handouts_eq, List.getElem?_mapIdx]
  rw [act?, hhandout, Lease.act]
  cases hlease : leases[number]? with
  | none =>
    rw [Lease.modify_write_of_refused (by simp [hlease])]
    exact ⟨arena, rfl, h⟩
  | some lease =>
    obtain ⟨segment, live⟩ := lease
    cases live with
    | false =>
      rw [Lease.modify_write_of_refused (by simp [hlease])]
      exact ⟨arena, rfl, h⟩
    | true =>
      have hsize : segment.size = layout.size :=
        h.size_eq ⟨segment, true⟩ (List.mem_of_getElem? hlease)
      have hextent : (layout.place number).size = layout.size := rfl
      simp only [Option.map_some, hextent]
      by_cases hfits : position + bytes.length ≤ layout.size
      · rw [if_pos hfits]
        have hmodify := h.modify (g := id)
          (fun extent lease => by rw [lease.live_write position bytes, id])
          (fun lease => lease.size_write position bytes) fun _ => h.read_write hlease hfits
        rw [List.modify_id] at hmodify
        exact ⟨_, rfl, hmodify⟩
      · rw [if_neg hfits, Lease.modify_write_of_refused (by simpa [hlease, hsize] using hfits)]
        exact ⟨arena, rfl, h⟩

theorem Agrees.act_drop (h : arena.Agrees layout leases) (number : Nat) :
    ∃ arena', arena.act? (.drop number) = some arena' ∧
      arena'.Agrees layout (Lease.act layout.size leases (.drop number)) := by
  refine ⟨_, rfl, h.modify (f := Lease.drop) (fun _ _ => rfl) (fun _ => rfl)
    fun other hother => ?_⟩
  rw [Lease.segmentAt_modify (f := Lease.drop) fun _ => rfl]
  exact h.read_eq other hother

theorem Agrees.act (h : arena.Agrees layout leases) (hcount : 0 < layout.count)
    (request : SegmentRequest) :
    ∃ arena', arena.act? request = some arena' ∧
      arena'.Agrees layout (Lease.act layout.size leases request) := by
  cases request with
  | get => exact h.act_get hcount
  | write number position bytes => exact h.act_write number position bytes
  | drop number => exact h.act_drop number

/-- No request fails, and the bytes stay the same as those of the values. -/
theorem Agrees.run (h : arena.Agrees layout leases) (hcount : 0 < layout.count)
    (requests : List SegmentRequest) :
    ∃ arena', arena.run? requests = some arena' ∧
      arena'.Agrees layout (requests.foldl (Lease.act layout.size) leases) := by
  induction requests generalizing arena leases with
  | nil => exact ⟨arena, rfl, h⟩
  | cons request rest ih =>
    obtain ⟨next, hact, hnext⟩ := h.act hcount request
    obtain ⟨last, hrun, hlast⟩ := ih hnext
    refine ⟨last, ?_, hlast⟩
    rw [run?, List.foldlM_cons, hact]
    exact hrun

theorem Agrees.held_eq (h : arena.Agrees layout leases) :
    arena.held = leases.map fun lease => (lease.segment.bytes, lease.live) := by
  apply List.ext_getElem?
  intro number
  rw [held, h.handouts_eq, List.getElem?_map, List.getElem?_mapIdx, List.getElem?_map]
  cases hlease : leases[number]? with
  | none => rfl
  | some lease =>
    have hlt := (List.getElem?_eq_some_iff.1 hlease).1
    have hregion := layout.div_lt_regions hlt
    rw [← h.source_eq] at hregion
    have hread := h.read_eq number hregion
    rw [Lease.segmentAt_of_getElem? hlease] at hread
    simp only [Option.map_some, hread]

theorem Agrees.extents_eq (h : arena.Agrees layout leases) :
    arena.handouts.map Handout.extent = (List.range leases.length).map layout.place := by
  rw [h.handouts_eq]
  apply List.ext_getElem
  · simp only [List.length_map, List.length_mapIdx, List.length_range]
  · intro number _ _
    simp only [List.getElem_map, List.getElem_mapIdx, List.getElem_range]

theorem Agrees.pairwise_disjoint (h : arena.Agrees layout leases) :
    arena.handouts.Pairwise fun a b => a.extent.Disjoint b.extent := by
  rw [h.handouts_eq, List.pairwise_iff_getElem]
  intro i j _ _ hlt
  simp only [List.getElem_mapIdx]
  exact RegionLayout.disjoint_place (Nat.ne_of_lt hlt)

/-- Any size and number of segments are fitted into a region, and any number of them is handed out,
whatever is written and dropped in between. They lie side by side, so none shares a byte with another,
and have the bytes that they have as values of their own; each is zero when it is handed out. No
region is allocated before the last one is used up. -/
theorem run_segments {count size : Nat} (hcount : 0 < count) (hsize : 0 < size)
    (memory : RegionMemory) :
    ∃ source, SegmentSource.create count size = .ok source ∧
      let layout := source.layout
      layout.size = min size maxRegionSize ∧ 0 < layout.count ∧
      layout.count * layout.size ≤ maxRegionSize ∧
      (∃ halvings, layout.count = count / Nat.pow 2 halvings ∧
        ∀ fewer < halvings, maxRegionSize < count / Nat.pow 2 fewer * layout.size) ∧
      ∀ requests, ∃ arena, Arena.run? { source, memory } requests = some arena ∧
        let handedOut := SegmentRequest.gets requests
        arena.handouts.map Handout.extent = (List.range handedOut).map (fun number =>
          ⟨number / layout.count, number % layout.count * layout.size, layout.size⟩) ∧
        arena.handouts.Pairwise (fun a b => a.extent.Disjoint b.extent) ∧
        arena.source.regions = (handedOut + layout.count - 1) / layout.count ∧
        arena.held = (Lease.run layout.size requests).map
          (fun lease => (lease.segment.bytes, lease.live)) ∧
        ∃ next, arena.act? .get = some next ∧
          next.held = arena.held ++ [(List.replicate layout.size 0, true)] ∧
          (next.source.regions ≠ arena.source.regions →
            arena.source.regions * layout.count = handedOut) ∧
          arena.source.next = (Segment.zeroed layout.size, next.source) := by
  let layout := RegionLayout.fit count size
  have hfit : 0 < layout.count := RegionLayout.fitCount_pos _ hcount
  refine ⟨{ layout }, ?_, rfl, hfit, RegionLayout.fitCount_fits (Nat.min_le_right _ _) hcount,
    RegionLayout.exists_fitCount_eq _ count, fun requests => ?_⟩
  · rw [SegmentSource.create, if_neg (Nat.ne_of_gt hsize), if_neg (Nat.ne_of_gt hcount)]
  obtain ⟨arena, hrun, hagrees⟩ := (agrees_start layout memory).run hfit requests
  have hlength := Lease.length_foldl_act layout.size [] requests
  rw [List.length_nil, Nat.zero_add] at hlength
  have hextents := hagrees.extents_eq
  have hsource := hagrees.source_eq
  rw [hlength] at hextents hsource
  refine ⟨arena, hrun, hextents, hagrees.pairwise_disjoint, ?_, hagrees.held_eq, ?_⟩
  · rw [hsource, RegionLayout.regions_sourceAfter hfit]
  obtain ⟨next, hact, hnext⟩ := hagrees.act_get hfit
  have hnextSource := hnext.source_eq
  rw [Lease.act, List.length_append, List.length_singleton, hlength] at hnextSource
  refine ⟨next, hact, ?_, fun hnew => ?_, ?_⟩
  · rw [hnext.held_eq, Lease.act, List.map_append, ← hagrees.held_eq, List.map_singleton,
      Segment.bytes_zeroed]
  · rw [hsource, hnextSource] at hnew
    rw [hsource]
    exact RegionLayout.regions_mul_count hfit hnew
  · rw [hsource, SegmentSource.next, RegionLayout.next?_sourceAfter hfit, hnextSource]
    rfl

/-- Three segments of two bytes, two to a region: the second is written, and so is the first, but only
after it was dropped. -/
theorem run_segments_three :
    let requests : List SegmentRequest :=
      [.get, .get, .write 1 0 [5, 6], .drop 0, .write 0 0 [7], .get]
    0 < 2 ∧ ∃ source arena, SegmentSource.create 2 2 = .ok source ∧
      Arena.run? { source, memory := fun _ _ => 9 } requests = some arena ∧
      arena.handouts.map Handout.extent = [⟨0, 0, 2⟩, ⟨0, 2, 2⟩, ⟨1, 0, 2⟩] ∧
      arena.held = [([0, 0], false), ([5, 6], true), ([0, 0], true)] ∧ arena.source.regions = 2 := by
  intro requests
  have hpos : 0 < 2 := by decide
  obtain ⟨source, hcreate, hsize, -, -, ⟨halvings, hcount, hfewer⟩, hrun⟩ :=
    run_segments hpos hpos fun _ _ => 9
  obtain ⟨arena, harena, hextents, -, hregions, hheld, -⟩ := hrun requests
  replace hsize : source.layout.size = 2 := hsize.trans (by decide)
  -- four bytes are no more than a region may have
  replace hcount : source.layout.count = 2 := by
    cases halvings with
    | zero => exact hcount
    | succ n =>
      have hlarge := hfewer 0 (Nat.succ_pos n)
      rw [hsize] at hlarge
      exact absurd hlarge (by decide)
  rw [hsize] at hheld
  rw [hcount] at hregions
  simp only [hsize, hcount] at hextents
  exact ⟨hpos, source, arena, hcreate, harena, hextents.trans (by decide), hheld.trans (by decide),
    hregions.trans (by decide)⟩

end Arena
end Logbook
