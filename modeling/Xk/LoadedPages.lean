/-
This file proves which pages `vspaceloadcode` puts into the code region and what is in them, and for
which files the bounds that it records match the pages.

Every segment adds the pages from the end of what has been added before, `va`, to `va` plus the end
of the segment, so that the pages reach from 0 to the sum of all ends, while the bounds record the
end of the last segment alone. Memory is smaller than 2 GiB, so that none of this overflows in a call
that succeeds.
-/

import Xk.ExtentReads
import Xk.Growth
import Xk.Loader

namespace Xk

open Outcome

/-! ### The program headers of a file -/

/-- Where a segment ends in memory. -/
def Proghdr.stop (ph : Proghdr) : Nat := ph.vaddr.toNat + ph.memsz.toNat

/-- The program headers from `off` on. -/
def readHeaders (fs : FileSystem) (ip : Inode) : Nat → UInt32 → Except Halt (Option (List Proghdr))
  | 0, _ => .ok (some [])
  | phnum + 1, off => do
    match ← readRecord fs ip off 56 with
    | none => return none
    | some record =>
      let rest ← readHeaders fs ip phnum (off + 56)
      return rest.map (Proghdr.decode record :: ·)

/-- The headers of type `ELF_PROG_LOAD`. -/
def segments (headers : List Proghdr) : List Proghdr := headers.filter (·.type = elfProgLoad)

/-- The sum of the ends of segments. -/
def totalStop (loads : List Proghdr) : Nat := (loads.map Proghdr.stop).sum

/-- The end of the last of the segments, or the given value where there is none. -/
def lastStop (sz : Int) (loads : List Proghdr) : Int := loads.foldl (fun _ ph => ph.stop) sz

/-- What a segment makes of an image of memory, for the contents of the file. -/
def Proghdr.place (content : Nat → UInt8) (image : Nat → UInt8) (ph : Proghdr) : Nat → UInt8 :=
  fun a => if ph.vaddr.toNat ≤ a ∧ a < ph.vaddr.toNat + ph.filesz.toNat
    then content (ph.off.toNat + (a - ph.vaddr.toNat)) else image a

/-- Reads inside of the file return its contents. -/
def FileHolds (fs : FileSystem) (ip : Inode) (content : Nat → UInt8) : Prop :=
  ∀ off n : UInt32, off.toNat + n.toNat ≤ ip.size.toNat →
    readi fs ip off n = .ok (n.toNat, Bytes.load content off.toNat n.toNat)

/-! ### Pages of a region that is being loaded -/

/-- The region has a page of its own for each of the first addresses, with the bytes of the image in
them, and none behind them. The pages of the others are as they were. -/
structure Loading (user extra : Multiset Nat) (held : Nat → Frame) (image : Nat → UInt8)
    (pages : Nat) (vr : Vregion) (ram : Ram) : Prop where
  up : vr.dir = .up
  base : vr.vaBase = 0
  mapped : ∀ idx < pages, ∃ page, vr.info idx = ⟨true, page, true, true, false⟩
  rest : ∀ idx, pages ≤ idx → vr.info idx = .zero
  ledger : Ledger ram (vr.descFrames + extra) (vr.userFrames + user)
  distinct : vr.userFrames.Nodup
  apart : ∀ page ∈ vr.userFrames, page ∉ user
  others : ∀ page ∈ user, ram.memory.frame page = held page
  bytes : ∀ a < pages * pgSize,
    ram.memory.frame (vr.info (a / pgSize)).ppn (pageOffset a) = image a
  blank : ∀ a, pages * pgSize ≤ a → image a = 0

section Pages

variable {user extra : Multiset Nat} {held : Nat → Frame} {image : Nat → UInt8} {pages : Nat}
  {vr after : Vregion} {ram ramAfter : Ram}

section

variable (loading : Loading user extra held image pages vr ram)
include loading

theorem Loading.userFrames_eq :
    vr.userFrames = (Multiset.range pages).map fun idx => (vr.info idx).ppn := by
  have covers := Vregion.userFrames_eq_sum_of_le (le_max_left (vr.pages.length * vpippage) pages)
  have behind : ∑ idx ∈ Finset.range pages, (vr.info idx).frames =
      ∑ idx ∈ Finset.range (max (vr.pages.length * vpippage) pages), (vr.info idx).frames := by
    grind [Finset.sum_subset, Loading, VpageInfo.frames_zero]
  have single : ∀ idx ∈ Finset.range pages, (vr.info idx).frames = {(vr.info idx).ppn} := by
    intro idx member
    obtain ⟨page, isPage⟩ := loading.mapped idx (Finset.mem_range.mp member)
    rw [isPage]
    rfl
  rw [covers, ← behind, Finset.sum_congr rfl single]
  have whole := Multiset.sum_map_singleton ((Multiset.range pages).map fun idx => (vr.info idx).ppn)
  rw [Multiset.map_map] at whole
  exact whole

/-- Different indices have different pages. -/
theorem Loading.ppn_injective {first second : Nat} (firstIn : first < pages)
    (secondIn : second < pages) (same : (vr.info first).ppn = (vr.info second).ppn) :
    first = second := by
  have distinct := loading.distinct
  rw [loading.userFrames_eq] at distinct
  exact Multiset.inj_on_of_nodup_map distinct first (Multiset.mem_range.mpr firstIn) second
    (Multiset.mem_range.mpr secondIn) same

theorem Loading.mem_userFrames {idx : Nat} (inside : idx < pages) :
    (vr.info idx).ppn ∈ vr.userFrames := by
  rw [loading.userFrames_eq]
  exact Multiset.mem_map_of_mem _ (Multiset.mem_range.mpr inside)

/-- There are fewer pages than physical memory has. -/
theorem Loading.pages_lt :
    pages < 2 ^ 19 := by
  have physical : vr.userFrames.toFinset ⊆ Finset.range ram.boot.npages := by
    intro page member
    have owned : page ∈ vr.descFrames + extra + (vr.userFrames + user) :=
      Multiset.mem_add.mpr (Or.inr (Multiset.mem_add.mpr
        (Or.inl (Multiset.mem_toFinset.mp member))))
    exact Finset.mem_range.mpr (loading.ledger.allocated owned).1.2
  have count := Finset.card_le_card physical
  rw [Finset.card_range, Multiset.toFinset_card_of_nodup loading.distinct, loading.userFrames_eq,
    Multiset.card_map, Multiset.card_range] at count
  exact count.trans_lt loading.ledger.sound.1

theorem Loading.va2vpiIdx_eq {a : Nat} (below : a < 2 ^ 44) :
    va2vpiIdx vr.toRegionBounds a = a / pgSize := by
  simp only [va2vpiIdx, loading.up, loading.base, pgSize]
  omega

/-- An index is inside exactly where its `vpage_info` is used. -/
theorem Loading.used_iff (idx : Nat) :
    (vr.info idx).used = true ↔ idx < pages := by
  constructor
  · intro used
    by_contra behind
    rw [loading.rest idx (Nat.not_lt.mp behind)] at used
    cases used
  · grind [Loading]

/-- Looking up a `vpage_info` takes descriptor pages only. -/
theorem Loading.va2vpageInfo (a : Nat) :
    Ends (va2vpageInfo ram vr a) Anyhow fun (vpi, after, ramAfter) =>
      Loading user extra held image pages after ramAfter ∧
        ∀ idx, vpi = some idx → idx = va2vpiIdx vr.toRegionBounds a := by
  refine (va2vpageInfo_keeps a loading.ledger.keeps).mono ?_
  rintro ⟨vpi, after, ramAfter⟩ ⟨same, keeps, isVpi⟩
  dsimp only at same keeps isVpi ⊢
  have frames (page : Nat) (owned : page ∈ vr.userFrames + user) :
      ramAfter.memory.frame page = ram.memory.frame page := by
    rw [keeps.frames page owned, Ram.contentsOf, if_pos owned]
  refine ⟨⟨?_, ?_, fun idx inside => ?_, fun idx behind => ?_, ?_, ?_, ?_, fun page inUser => ?_,
    fun a inside => ?_, loading.blank⟩, fun idx isSome => (isVpi idx isSome).1⟩
  · rw [same.bounds, loading.up]
  · rw [same.bounds, loading.base]
  · rw [same.infos]
    exact loading.mapped idx inside
  · rw [same.infos]
    exact loading.rest idx behind
  · rw [same.userFrames]
    exact keeps.ledger
  · rw [same.userFrames]
    exact loading.distinct
  · rw [same.userFrames]
    exact loading.apart
  · rw [frames page (Multiset.mem_add.mpr (Or.inr inUser)), loading.others page inUser]
  · grind [mem_userFrames, Nat.div_lt_iff_lt_mul, Vregion.Same, Loading]

/-- Bytes that are moved to the begin of a page. -/
theorem Loading.memmove {idx : Nat} (inside : idx < pages) {data : List UInt8}
    (fits : data.length ≤ pgSize) :
    Loading user extra held (Bytes.write image (idx * pgSize) data) pages vr
      (ram.memmove (vr.info idx).ppn 0 data) where
  up := loading.up
  base := loading.base
  mapped := loading.mapped
  rest := loading.rest
  ledger := loading.ledger.setFrame _ _
  distinct := loading.distinct
  apart := loading.apart
  others page inUser := by grind [Loading, mem_userFrames, Ram.memmove_other]
  bytes a before := by
    have inPages : a / pgSize < pages := (Nat.div_lt_iff_lt_mul (by decide)).mpr before
    by_cases same : a / pgSize = idx
    · subst same
      have start : a / pgSize * pgSize ≤ a := Nat.div_mul_le_self a pgSize
      have offset : a - a / pgSize * pgSize = (pageOffset a).val := by
        rw [← Nat.mod_eq_sub_div_mul]
        rfl
      rw [Ram.memmove_self, if_pos (Nat.zero_le _), Nat.sub_zero, loading.bytes a before,
        Bytes.write, if_pos start, offset, List.getD_eq_getElem?_getD]
    · have different : (vr.info (a / pgSize)).ppn ≠ (vr.info idx).ppn := fun samePage =>
        same (loading.ppn_injective inPages inside samePage)
      have split := Nat.div_add_mod' a pgSize
      rw [Ram.memmove_other ram data different, loading.bytes a before, Bytes.write_of_outside]
      have offset := Nat.mod_lt a (show 0 < pgSize by decide)
      rcases Nat.lt_or_gt_of_ne same with below | above
      · grind [pgSize]
      · grind [pgSize]
  blank a behind := by grind [pgSize, Bytes.write_of_outside, Loading]

end

/-! ### Adding pages -/

/-- The loop of `vregionaddmap` one page at a time. -/
theorem addmapLoop_succ (present writable : Bool) (steps a : Nat) (vr : Vregion) (ram : Ram) :
    addmapLoop present writable (steps + 1) a vr ram =
      addmapLoop present writable 1 a vr ram >>= fun (failed, vr, ram) =>
        match failed with
        | none => addmapLoop present writable steps (a + pgSize) vr ram
        | some a => .ok (some a, vr, ram) := by
  rw [addmapLoop, addmapLoop]
  cases Xk.va2vpageInfo ram vr a with
  | error halt => rfl
  | ok result =>
    obtain ⟨vpi, found, middle⟩ := result
    rw [ok_bind, ok_bind]
    cases vpi with
    | none => rfl
    | some idx =>
      dsimp only
      cases middle.kalloc with
      | mk mem taken =>
        cases mem with
        | none => rfl
        | some mem => rfl

/-- A page that is added. -/
theorem Loading.addPage (loading : Loading user extra held image pages vr ram) :
    Ends (addmapLoop true true 1 (pages * pgSize) vr ram) Anyhow fun (failed, after, ramAfter) =>
      failed = none → Loading user extra held image (pages + 1) after ramAfter := by
  have small := loading.pages_lt
  have index : ∀ i < 1, va2vpiIdx vr.toRegionBounds (pages * pgSize + i * pgSize) = pages + i := by
    intro i isZero
    rw [loading.va2vpiIdx_eq (by unfold pgSize; omega), ← Nat.add_mul,
      Nat.mul_div_cancel _ (by decide)]
  have keeps : ram.Keeps (0 + (vr.userFrames + user)) (ram.contentsOf (vr.userFrames + user)) False
      (vr.descFrames + extra) := by
    rw [zero_add]
    exact loading.ledger.keeps
  refine (addmapLoop_adds (ram.contentsOf_zeros _) index
    (fun i _ => loading.rest _ (Nat.le_add_right pages i)) keeps).mono ?_
  rintro ⟨failed, after, ramAfter⟩ ⟨-, adds⟩ isNone
  obtain ⟨added, isAdded, distinct, fresh, keepsAfter⟩ := adds isNone
  rw [zero_add] at fresh keepsAfter
  have frames (page : Nat) (owned : page ∈ vr.userFrames + user) :
      ramAfter.memory.frame page = ram.memory.frame page := by
    rw [keepsAfter.frames page (Multiset.mem_add.mpr (Or.inr owned)), Ram.contentsOf, if_pos owned]
  obtain ⟨page, inAdded, isPage⟩ := isAdded.pages pages le_rfl (Nat.lt_succ_self pages)
  refine ⟨?_, ?_, fun idx inside => ?_, fun idx behind => ?_, ?_, ?_, fun owned inFrames => ?_,
    fun owned inUser => ?_, fun a inside => ?_, fun a behind => loading.blank a ?_⟩
  · rw [isAdded.bounds, loading.up]
  · rw [isAdded.bounds, loading.base]
  · grind [Vregion.Added, Loading]
  · grind [Vregion.Added, Loading]
  · grind [Vregion.Added, Ram.Keeps]
  · grind [Vregion.Added, Multiset.nodup_add, Loading, Multiset.disjoint_left]
  · grind [Vregion.Added, Loading]
  · rw [frames owned (Multiset.mem_add.mpr (Or.inr inUser)), loading.others owned inUser]
  · rcases Nat.lt_or_ge a (pages * pgSize) with earlier | later
    · grind [Nat.div_lt_iff_lt_mul, Vregion.Added, mem_userFrames, Loading]
    · have isLast : a / pgSize = pages :=
        Nat.div_eq_of_lt_le later inside
      rw [isLast, isPage, keepsAfter.frames page (Multiset.mem_add.mpr (Or.inl inAdded)),
        Ram.contentsOf_zeros ram _ page (fresh page inAdded), loading.blank a later]
      rfl
  · grind

/-- The loop of `vregionaddmap`, for any number of pages. -/
theorem Loading.addmapLoop (steps : Nat) (loading : Loading user extra held image pages vr ram) :
    Ends (addmapLoop true true steps (pages * pgSize) vr ram) Anyhow
      fun (failed, after, ramAfter) =>
        failed = none → Loading user extra held image (pages + steps) after ramAfter := by
  induction steps generalizing pages vr ram with
  | zero => exact fun _ => loading
  | succ steps inductionHypothesis =>
    rw [addmapLoop_succ]
    refine loading.addPage.bind ?_
    rintro ⟨failed, middle, ramMiddle⟩ loads
    cases failed with
    | some a => exact fun isNone => by cases isNone
    | none => grind

theorem lt_of_pageCount_lt {size : Nat} (few : pageCount size < 2 ^ 19) :
    size + pgSize ≤ 2 ^ 31 := by
  unfold pageCount pgSize at *
  omega

/-- `vregionaddmap` from the end of what is there on. Memory is too small for a sum that wraps or
for an `int` that is negative. -/
theorem Loading.vregionaddmap {va sz : Nat} (range : sz < 2 ^ 64)
    (loading : Loading user extra held image (pageCount va) vr ram) :
    Ends (vregionaddmap ram vr va sz true true) Anyhow fun (res, after, ramAfter) =>
      ¬ res < 0 → res = sz ∧ Loading user extra held image (pageCount (va + sz)) after
        ramAfter := by
  have small := lt_of_pageCount_lt loading.pages_lt
  have start : pgRoundUp va % 2 ^ 64 = pageCount va * pgSize := by
    unfold pgRoundUp pageCount pgSize at *
    omega
  unfold Xk.vregionaddmap
  dsimp only
  rw [start]
  split_ifs with tooHigh empty
  · exact fun nonneg => absurd (by decide : (-1 : Int) < 0) nonneg
  · subst empty
    exact fun _ => ⟨rfl, loading⟩
  · refine (loading.addmapLoop _).bind ?_
    rintro ⟨failed, after, ramAfter⟩ loads
    cases failed with
    | some a =>
      dsimp only
      cases addmapFailure (pageCount va * pgSize)
        (pageSteps (pageCount va * pgSize) ((sz + va) % 2 ^ 64) + 2)
        ((a + 2 ^ 64 - pgSize) % 2 ^ 64) after ramAfter with
      | error halt => exact trivial
      | ok undone => exact fun nonneg => absurd (by decide : (-1 : Int) < 0) nonneg
    | none =>
      intro nonneg
      dsimp only at nonneg ⊢
      have loaded := loads rfl
      have fits : sz + va < 2 ^ 64 := by grind [wrapInt]
      have count : pageCount va + pageSteps (pageCount va * pgSize) ((sz + va) % 2 ^ 64) =
          pageCount (va + sz) := by
        rw [Nat.mod_eq_of_lt fits]
        unfold pageSteps pageCount pgSize
        omega
      rw [count] at loaded
      have sizes := lt_of_pageCount_lt loaded.pages_lt
      refine ⟨wrapInt_of_lt sz (Int.natCast_nonneg sz) ?_, loaded⟩
      unfold pgSize at sizes
      omega

/-! ### Reading a segment -/

section Segments

variable {fs : FileSystem} {ip : Inode} {content : Nat → UInt8}

/-- The image with a part of the file at `va + i`. -/
def placeFrom (content image : Nat → UInt8) (va offset i sz : Nat) : Nat → UInt8 :=
  fun a => if va + i ≤ a ∧ a < va + sz then content (offset + (a - va)) else image a

/-- A page of the file and then the rest of it. -/
theorem placeFrom_write (content image : Nat → UInt8) {va offset i sz n : Nat}
    (isN : n = min (sz - i) pgSize) (more : i < sz) :
    placeFrom content (Bytes.write image (va + i) (Bytes.load content (offset + i) n)) va offset
      (i + pgSize) sz = placeFrom content image va offset i sz := by
  funext a
  unfold placeFrom Bytes.write
  rw [Bytes.load_getElem?]
  unfold pgSize at *
  by_cases before : a < va + i
  · rw [if_neg (by omega), if_neg (by omega), if_neg (by omega)]
  · grind

/-- The loop of `vrloaddata`. -/
theorem Loading.vrloaddataLoop {va turns : Nat} {offset sz i : UInt32}
    (aligned : va % pgSize = 0) (whole : i.toNat % pgSize = 0) (below : va + sz.toNat < 2 ^ 31)
    (loading : Loading user extra held image pages vr ram) :
    Ends (vrloaddataLoop fs ip va offset sz turns i vr ram) Anyhow fun (res, after, ramAfter) =>
      ∃ filled, Loading user extra held filled pages after ramAfter ∧
        (¬ res < 0 → ∀ content, FileHolds fs ip content →
          offset.toNat + sz.toNat ≤ ip.size.toNat →
            filled = placeFrom content image va offset.toNat i.toNat sz.toNat) := by
  induction turns generalizing i image vr ram with
  | zero => exact trivial
  | succ turns inductionHypothesis =>
    unfold Xk.vrloaddataLoop
    by_cases more : i < sz
    · rw [if_pos more]
      rw [UInt32.lt_iff_toNat_lt] at more
      refine (loading.va2vpageInfo _).bind ?_
      rintro ⟨vpi, found, middle⟩ ⟨loadingFound, isVpi⟩
      cases vpi with
      | none => exact trivial
      | some idx =>
        dsimp only
        by_cases used : (found.info idx).used = false
        · rw [if_pos used]
          exact trivial
        rw [if_neg used]
        have inside := (loadingFound.used_iff idx).mp (Bool.eq_true_of_not_eq_false used)
        have isIdx : idx * pgSize = va + i.toNat := by
          rw [isVpi idx rfl, loading.va2vpiIdx_eq (by omega)]
          unfold pgSize at *
          omega
        have isN : (min (sz - i) 4096).toNat = min (sz.toNat - i.toNat) pgSize := by
          rw [UInt32.toNat_min, UInt32.toNat_sub_of_le _ _ (UInt32.le_iff_toNat_le.mpr more.le)]
          rfl
        have next : (i + 4096).toNat = i.toNat + pgSize := toNat_add_of_lt (by
          show i.toNat + 4096 < 2 ^ 32
          omega)
        cases read : readi fs ip (offset + i) (min (sz - i) 4096) with
        | error halt => exact trivial
        | ok result =>
          obtain ⟨result, bytes⟩ := result
          rw [ok_bind]
          dsimp only
          split_ifs with long short
          · exact trivial
          · have fits : bytes.length ≤ pgSize := by omega
            exact ⟨_, loadingFound.memmove inside fits,
              fun nonneg => absurd (by decide : (-1 : Int) < 0) nonneg⟩
          · have fits : bytes.length ≤ pgSize := by omega
            have wholeNext : (i + 4096).toNat % pgSize = 0 := by
              rw [next, Nat.add_mod_right, whole]
            refine (inductionHypothesis wholeNext (loadingFound.memmove inside fits)).mono ?_
            rintro ⟨res, after, ramAfter⟩ ⟨filled, loadingAfter, isFilled⟩
            refine ⟨filled, loadingAfter, fun nonneg content holds inFile => ?_⟩
            have place : (offset + i).toNat = offset.toNat + i.toNat := toNat_add_of_lt (by
              have size := ip.size.toNat_lt
              omega)
            have isRead := holds (offset + i) (min (sz - i) 4096) (by omega)
            rw [read] at isRead
            obtain ⟨-, rfl⟩ := ok_pair isRead
            rw [isFilled nonneg content holds inFile, isIdx, next, place]
            exact placeFrom_write content image isN more
    · rw [if_neg more]
      refine ⟨image, loading, fun _ content _ _ => ?_⟩
      rw [UInt32.lt_iff_toNat_lt] at more
      funext a
      exact (if_neg (by omega)).symm

/-- A segment that is loaded. -/
theorem Loading.loadSegment {va : Nat} (ph : Proghdr)
    (loading : Loading user extra held image (pageCount va) vr ram) :
    Ends (loadSegment fs ip ph va vr ram) Anyhow fun (loaded, after, ramAfter) =>
      ∀ sz, loaded = some sz → sz = ph.stop ∧ ∃ filled,
        Loading user extra held filled (pageCount (va + ph.stop)) after ramAfter ∧
          ∀ content, FileHolds fs ip content → ph.off.toNat + ph.filesz.toNat ≤ ip.size.toNat →
            filled = ph.place content image := by
  unfold Xk.loadSegment
  by_cases less : ph.memsz < ph.filesz
  · rw [if_pos less]
    exact fun _ isSome => by cases isSome
  rw [if_neg less]
  by_cases wraps : ph.vaddr + ph.memsz < ph.vaddr
  · rw [if_pos wraps]
    exact fun _ isSome => by cases isSome
  rw [if_neg wraps]
  have stop : (ph.vaddr + ph.memsz).toNat = ph.stop := by
    rw [UInt64.lt_iff_toNat_lt, UInt64.toNat_add] at wraps
    rw [UInt64.toNat_add, Proghdr.stop]
    have vaddr := ph.vaddr.toNat_lt
    have memsz := ph.memsz.toNat_lt
    omega
  rw [stop]
  have range : ph.stop < 2 ^ 64 := stop ▸ UInt64.toNat_lt _
  refine (loading.vregionaddmap range).bind ?_
  rintro ⟨sz, added, middle⟩ adds
  dsimp only at adds ⊢
  by_cases negative : sz < 0
  · rw [if_pos negative]
    exact fun _ isSome => by cases isSome
  obtain ⟨rfl, loadingAdded⟩ := adds negative
  rw [if_neg negative]
  by_cases misaligned : ph.vaddr.toNat % pgSize ≠ 0
  · rw [if_pos misaligned]
    exact fun _ isSome => by cases isSome
  rw [if_neg misaligned]
  have small := lt_of_pageCount_lt loadingAdded.pages_lt
  have filesz : ph.filesz.toNat ≤ ph.memsz.toNat :=
    UInt64.le_iff_toNat_le.mp (UInt64.not_lt.mp less)
  have isFilesz : ph.filesz.toUInt32.toNat = ph.filesz.toNat := by
    rw [UInt64.toNat_toUInt32]
    unfold Proghdr.stop at small
    omega
  have below : ph.vaddr.toNat + ph.filesz.toUInt32.toNat < 2 ^ 31 := by grind [Proghdr.stop, pgSize]
  have aligned := Classical.not_not.mp misaligned
  rw [vrloaddata, if_neg misaligned]
  refine (loadingAdded.vrloaddataLoop (i := 0) aligned rfl below).bind ?_
  rintro ⟨res, after, ramAfter⟩ ⟨filled, loadingAfter, isFilled⟩
  dsimp only at isFilled ⊢
  by_cases failed : res < 0
  · rw [if_pos failed]
    exact fun _ isSome => by cases isSome
  rw [if_neg failed]
  rintro sz isSome
  obtain rfl := Option.some_inj.mp isSome
  refine ⟨rfl, filled, loadingAfter, fun content holds inFile => ?_⟩
  have isOff : ph.off.toUInt32.toNat = ph.off.toNat := by
    have size := ip.size.toNat_lt
    rw [UInt64.toNat_toUInt32]
    omega
  rw [isFilled failed content holds (by rw [isOff, isFilesz]; exact inFile), isOff, isFilesz]
  rfl

/-- The loop of `vspaceloadcode`. -/
theorem Loading.loadSegments {phnum va : Nat} {off : UInt32} {sz : Int}
    (loading : Loading user extra held image (pageCount va) vr ram) :
    Ends (loadSegments fs ip phnum off va sz vr ram) Anyhow fun (loaded, after, ramAfter) =>
      ∀ szAfter, loaded = some szAfter → ∃ headers,
        readHeaders fs ip phnum off = .ok (some headers) ∧
        szAfter = lastStop sz (segments headers) ∧ ∃ filled,
          Loading user extra held filled (pageCount (va + totalStop (segments headers))) after
            ramAfter ∧
          ∀ content, FileHolds fs ip content →
            (∀ ph ∈ segments headers, ph.off.toNat + ph.filesz.toNat ≤ ip.size.toNat) →
              filled = (segments headers).foldl (Proghdr.place content) image := by
  induction phnum generalizing off va sz image vr ram with
  | zero =>
    intro szAfter isSome
    refine ⟨[], rfl, (Option.some_inj.mp isSome).symm, image, loading, fun _ _ _ => rfl⟩
  | succ phnum inductionHypothesis =>
    unfold Xk.loadSegments readHeaders
    cases readRecord fs ip off 56 with
    | error halt => exact trivial
    | ok record =>
      cases record with
      | none => exact fun _ isSome => by cases isSome
      | some record =>
        rw [ok_bind, ok_bind]
        dsimp only
        generalize Proghdr.decode record = ph
        by_cases isLoad : ph.type ≠ elfProgLoad
        · rw [if_pos isLoad]
          refine (inductionHypothesis loading).mono ?_
          rintro ⟨loaded, after, ramAfter⟩ rest szAfter isSome
          obtain ⟨headers, read, isLast, facts⟩ := rest szAfter isSome
          have skipped : segments (ph :: headers) = segments headers :=
            List.filter_cons_of_neg (by simpa using isLoad)
          refine ⟨ph :: headers, ?_, ?_⟩
          · rw [read]
            rfl
          · grind
        · rw [if_neg isLoad]
          refine (loading.loadSegment ph).bind ?_
          rintro ⟨loaded, middle, ramMiddle⟩ isLoaded
          cases loaded with
          | none => exact fun _ isSome => by cases isSome
          | some stop =>
            obtain ⟨rfl, filled, loadingMiddle, isFilled⟩ := isLoaded stop rfl
            have small := lt_of_pageCount_lt loadingMiddle.pages_lt
            have next : toUint64 ((va : Int) + ph.stop) = va + ph.stop := by
              unfold toUint64
              omega
            dsimp only
            rw [next]
            refine (inductionHypothesis loadingMiddle).mono ?_
            rintro ⟨loaded, after, ramAfter⟩ rest szAfter isSome
            obtain ⟨headers, read, isLast, last, loadingAfter, isImage⟩ := rest szAfter isSome
            have taken : segments (ph :: headers) = ph :: segments headers :=
              List.filter_cons_of_pos (by simpa using isLoad)
            refine ⟨ph :: headers, ?_, ?_, last, ?_, fun content holds inFile => ?_⟩
            · rw [read]
              rfl
            · rw [taken]
              exact isLast
            · grind [totalStop]
            · grind

end Segments

end Pages

/-! ### Whole programs -/

/-- The inode of a program, locked: `namei` and `locki`. -/
def openProgram (fs : FileSystem) (path : List UInt8) :
    Except Halt (Option (FileSystem × Fin ninode)) := do
  let (found, fs) ← namei fs path
  match found with
  | none => return none
  | some ip => do
    let fs ← locki fs ip
    return some (fs, ip)

/-- The ELF header of a file and its program headers. -/
def readProgram (fs : FileSystem) (ip : Inode) : Except Halt (Option (Elfhdr × List Proghdr)) := do
  match ← readRecord fs ip 0 64 with
  | none => return none
  | some record => do
    let elf := Elfhdr.decode record
    let headers ← readHeaders fs ip elf.phnum.toNat elf.phoff.toUInt32
    return headers.map (elf, ·)

/-- The program headers of the file with a path. -/
def programHeaders (fs : FileSystem) (path : List UInt8) : Option (List Proghdr) := do
  let (locked, ip) ← (← (openProgram fs path).toOption)
  let (_, headers) ← (← (readProgram locked (locked.inode ip)).toOption)
  return headers

theorem programHeaders_eq_some {fs : FileSystem} {path : List UInt8} {headers : List Proghdr} :
    programHeaders fs path = some headers ↔ ∃ locked ip elf,
      openProgram fs path = .ok (some (locked, ip)) ∧
        readProgram locked (locked.inode ip) = .ok (some (elf, headers)) := by
  unfold programHeaders
  constructor
  · intro isSome
    obtain ⟨opened, isOpened, hasPair⟩ := Option.bind_eq_some_iff.mp isSome
    obtain ⟨⟨locked, ip⟩, rfl, hasRead⟩ := Option.bind_eq_some_iff.mp hasPair
    obtain ⟨read, isRead, hasHeaders⟩ := Option.bind_eq_some_iff.mp hasRead
    obtain ⟨⟨elf, found⟩, rfl, isFound⟩ := Option.bind_eq_some_iff.mp hasHeaders
    obtain rfl := Option.some_inj.mp isFound
    exact ⟨locked, ip, elf, ok_of_toOption isOpened, ok_of_toOption isRead⟩
  · rintro ⟨locked, ip, elf, opened, read⟩
    rw [opened]
    simp only [Except.toOption, Option.bind_eq_bind, Option.bind_some]
    rw [read]
    rfl

/-- A region that grows up and has no pages yet. -/
structure Vregion.Vacant (vr : Vregion) : Prop where
  up : vr.dir = .up
  none : ∀ idx, vr.info idx = .zero

theorem Vregion.Vacant.userFrames {vr : Vregion} (vacant : vr.Vacant) : vr.userFrames = 0 := by
  refine Multiset.eq_zero_of_forall_notMem fun page member => ?_
  obtain ⟨idx, used, -⟩ := Vregion.mem_userFrames.mp member
  rw [vacant.none] at used
  cases used

/-- A successful call of `vspaceloadcode`, where `sz` had the value `garbage` before the loop. -/
structure Loads (garbage : Int32) (fs : FileSystem) (path : List UInt8) (ram : Ram) (vs : Vspace)
    (sz : Int) (entry : UInt64) (after : Vspace) (ramAfter : Ram) : Prop where
  vacant : (vs.regions vrCode).Vacant
  ledger : ∃ extra user, Ledger ram (vs.kernelFrames + extra) user
  returns : ∃ rip fsAfter,
    vspaceloadcode garbage fs ram vs path rip = .ok (sz, entry, after, ramAfter, fsAfter)
  success : sz ≠ 0

section Programs

variable {garbage : Int32} {fs locked : FileSystem} {path : List UInt8} {ip : Fin ninode}
  {ram ramAfter : Ram} {vs after : Vspace} {user extra : Multiset Nat} {sz : Int}
  {entry : UInt64} {elf : Elfhdr} {headers : List Proghdr}

theorem Vregion.Vacant.loading (vacant : (vs.regions vrCode).Vacant)
    (ledger : Ledger ram (vs.kernelFrames + extra) user) :
    Loading user (vs.pgtbl.frames +
        (∑ other ∈ Finset.univ.erase vrCode, (vs.regions other).descFrames + extra))
      ram.memory.frame (fun _ => 0) (pageCount 0) { vs.regions vrCode with vaBase := 0 } ram where
  up := vacant.up
  base := rfl
  mapped idx inside := absurd inside (Nat.not_lt_zero idx)
  rest idx _ := vacant.none idx
  ledger := by
    have none : ({ vs.regions vrCode with vaBase := 0 } : Vregion).userFrames = 0 :=
      vacant.userFrames
    rw [vs.kernelFrames_region vrCode extra] at ledger
    rw [none, zero_add]
    exact ledger
  distinct := by
    have none : ({ vs.regions vrCode with vaBase := 0 } : Vregion).userFrames = 0 :=
      vacant.userFrames
    rw [none]
    exact Multiset.nodup_zero
  apart page member := by
    have none : ({ vs.regions vrCode with vaBase := 0 } : Vregion).userFrames = 0 :=
      vacant.userFrames
    rw [none] at member
    exact absurd member (Multiset.notMem_zero page)
  others _ _ := rfl
  bytes a inside := absurd inside (Nat.not_lt_zero a)
  blank _ _ := rfl

/-- A successful call opens the program, loads it and gives the inode back. -/
theorem vspaceloadcode_opened {rip : UInt64} {fsAfter : FileSystem}
    (returns : vspaceloadcode garbage fs ram vs path rip =
      .ok (sz, entry, after, ramAfter, fsAfter)) (success : sz ≠ 0) :
    ∃ locked ip unlocked, openProgram fs path = .ok (some (locked, ip)) ∧
      loadElf garbage locked (locked.inode ip) vs ram = .ok (some (sz, entry), after, ramAfter) ∧
      unlocki locked ip = .ok unlocked := by
  unfold vspaceloadcode at returns
  obtain ⟨⟨found, looked⟩, isFound, returns⟩ := ok_of_bind returns
  cases found with
  | none =>
    obtain ⟨rfl, -⟩ := ok_pair returns
    exact absurd rfl success
  | some ip =>
    obtain ⟨locked, isLocked, returns⟩ := ok_of_bind returns
    obtain ⟨⟨loaded, loadedSpace, loadedRam⟩, isLoaded, returns⟩ := ok_of_bind returns
    obtain ⟨unlocked, isUnlocked, returns⟩ := ok_of_bind returns
    cases loaded with
    | none => simp_all
    | some loaded =>
      obtain ⟨rfl, rest⟩ := ok_pair returns
      obtain ⟨rfl, spaces⟩ := Prod.mk.inj rest
      obtain ⟨rfl, rams⟩ := Prod.mk.inj spaces
      obtain ⟨rfl, -⟩ := Prod.mk.inj rams
      refine ⟨locked, ip, unlocked, ?_, isLoaded, isUnlocked⟩
      unfold openProgram
      rw [isFound, ok_bind]
      dsimp only
      rw [isLocked]
      rfl

theorem vspaceloadcode_of_opened {unlocked : FileSystem}
    (opened : openProgram fs path = .ok (some (locked, ip)))
    (loaded : loadElf garbage locked (locked.inode ip) vs ram =
      .ok (some (sz, entry), after, ramAfter))
    (isUnlocked : unlocki locked ip = .ok unlocked) (rip : UInt64) :
    vspaceloadcode garbage fs ram vs path rip =
      .ok (sz, entry, after, ramAfter, irelease unlocked ip) := by
  unfold openProgram at opened
  obtain ⟨⟨found, looked⟩, isFound, opened⟩ := ok_of_bind opened
  cases found with
  | none => cases Except.ok.inj opened
  | some place =>
    obtain ⟨fsLocked, isLocked, opened⟩ := ok_of_bind opened
    obtain ⟨rfl, rfl⟩ := Prod.mk.inj (Option.some_inj.mp (Except.ok.inj opened))
    unfold vspaceloadcode
    rw [isFound, ok_bind]
    dsimp only
    rw [isLocked, ok_bind, loaded, ok_bind]
    dsimp only
    rw [isUnlocked]
    rfl

/-- A program that is loaded has the magic number, and its segments have been loaded. -/
theorem loadElf_ok {inode : Inode}
    (loaded : loadElf garbage fs inode vs ram = .ok (some (sz, entry), after, ramAfter)) :
    ∃ record code, readRecord fs inode 0 64 = .ok (some record) ∧
      (Elfhdr.decode record).magic = elfMagic ∧ entry = (Elfhdr.decode record).entry ∧
      loadSegments fs inode (Elfhdr.decode record).phnum.toNat
        (Elfhdr.decode record).phoff.toUInt32 0 garbage.toInt
        { vs.regions vrCode with vaBase := 0 } ram = .ok (some sz, code, ramAfter) ∧
      after = vs.setBounds code sz := by
  unfold loadElf at loaded
  obtain ⟨record, isRecord, loaded⟩ := ok_of_bind loaded
  cases record with
  | none => cases (ok_pair loaded).1
  | some record =>
    dsimp only at loaded
    by_cases magic : (Elfhdr.decode record).magic ≠ elfMagic
    · rw [if_pos magic] at loaded
      cases (ok_pair loaded).1
    rw [if_neg magic] at loaded
    obtain ⟨⟨last, code, codeRam⟩, isLast, loaded⟩ := ok_of_bind loaded
    cases last with
    | none => cases (ok_pair loaded).1
    | some last =>
      obtain ⟨isSome, rest⟩ := ok_pair loaded
      obtain ⟨rfl, rfl⟩ := Prod.mk.inj (Option.some_inj.mp isSome)
      obtain ⟨rfl, rfl⟩ := Prod.mk.inj rest
      exact ⟨record, code, isRecord, Classical.not_not.mp magic, rfl, isLast, rfl⟩

/-- What a successful call has read and done. -/
theorem vspaceloadcode_loads {rip : UInt64} {fsAfter : FileSystem}
    (vacant : (vs.regions vrCode).Vacant) (ledger : Ledger ram (vs.kernelFrames + extra) user)
    (returns : vspaceloadcode garbage fs ram vs path rip =
      .ok (sz, entry, after, ramAfter, fsAfter)) (success : sz ≠ 0) :
    ∃ locked ip elf headers code filled, openProgram fs path = .ok (some (locked, ip)) ∧
      readProgram locked (locked.inode ip) = .ok (some (elf, headers)) ∧
      sz = lastStop garbage.toInt (segments headers) ∧ entry = elf.entry ∧
      after = vs.setBounds code sz ∧
      Loading user (vs.pgtbl.frames +
          (∑ other ∈ Finset.univ.erase vrCode, (vs.regions other).descFrames + extra))
        ram.memory.frame filled (pageCount (totalStop (segments headers))) code ramAfter ∧
      ∀ content, FileHolds locked (locked.inode ip) content →
        (∀ ph ∈ segments headers, ph.off.toNat + ph.filesz.toNat ≤ (locked.inode ip).size.toNat) →
          filled = (segments headers).foldl (Proghdr.place content) fun _ => 0 := by
  obtain ⟨locked, ip, unlocked, opened, loaded, -⟩ := vspaceloadcode_opened returns success
  obtain ⟨record, code, isRecord, -, isEntry, isLast, isAfter⟩ := loadElf_ok loaded
  obtain ⟨headers, isRead, isSize, filled, loading, isFilled⟩ :=
    (vacant.loading ledger).loadSegments.post isLast sz rfl
  rw [Nat.zero_add] at loading
  refine ⟨locked, ip, Elfhdr.decode record, headers, code, filled, opened, ?_, isSize, isEntry,
    isAfter, loading, isFilled⟩
  unfold readProgram
  rw [isRecord, ok_bind]
  dsimp only
  rw [isRead]
  rfl

/-! ### Bounds and pages -/

/-- Without a segment the loop leaves everything as it was. -/
theorem loadSegments_of_none {inode : Inode} {phnum va : Nat} {off : UInt32} {vr : Vregion}
    (read : readHeaders fs inode phnum off = .ok (some headers)) (none : segments headers = []) :
    loadSegments fs inode phnum off va sz vr ram = .ok (some sz, vr, ram) := by
  induction phnum generalizing off headers with
  | zero => rfl
  | succ phnum inductionHypothesis =>
    unfold readHeaders at read
    unfold loadSegments
    obtain ⟨record, isRecord, read⟩ := ok_of_bind read
    cases record with
    | none => cases Except.ok.inj read
    | some record =>
      obtain ⟨rest, isRest, read⟩ := ok_of_bind read
      cases rest with
      | none => cases Except.ok.inj read
      | some rest =>
        obtain rfl := Option.some_inj.mp (Except.ok.inj read)
        by_cases isLoad : (Proghdr.decode record).type = elfProgLoad
        · grind [segments]
        · grind [segments, ok_bind]

theorem readProgram_ok {inode : Inode} {record : List UInt8}
    (isRecord : readRecord fs inode 0 64 = .ok (some record))
    (read : readProgram fs inode = .ok (some (elf, headers))) :
    elf = Elfhdr.decode record ∧
      readHeaders fs inode elf.phnum.toNat elf.phoff.toUInt32 = .ok (some headers) := by
  unfold readProgram at read
  rw [isRecord, ok_bind] at read
  obtain ⟨found, isFound, read⟩ := ok_of_bind read
  cases found with
  | none => cases Except.ok.inj read
  | some found => simp_all

/-- For a file without a segment the call succeeds with any value that `sz` had before. -/
theorem Loads.of_none (loads : Loads garbage fs path ram vs sz entry after ramAfter)
    (isProgram : programHeaders fs path = some headers)
    (none : segments headers = []) (other : Int32) (notZero : other.toInt ≠ 0) :
    ∃ otherAfter, Loads other fs path ram vs other.toInt entry otherAfter ram := by
  obtain ⟨locked, ip, elf, opened, read⟩ := programHeaders_eq_some.mp isProgram
  obtain ⟨rip, fsAfter, returns⟩ := loads.returns
  obtain ⟨fsLocked, place, unlocked, isOpened, loaded, isUnlocked⟩ :=
    vspaceloadcode_opened returns loads.success
  rw [opened] at isOpened
  obtain ⟨rfl, rfl⟩ := Prod.mk.inj (Option.some_inj.mp (Except.ok.inj isOpened))
  obtain ⟨record, code, isRecord, magic, rfl, -, -⟩ := loadElf_ok loaded
  obtain ⟨rfl, isRead⟩ := readProgram_ok isRecord read
  have reloaded : loadElf other locked (locked.inode ip) vs ram = .ok
      (some (other.toInt, (Elfhdr.decode record).entry),
        vs.setBounds { vs.regions vrCode with vaBase := 0 } other.toInt, ram) := by
    unfold loadElf
    rw [isRecord, ok_bind]
    dsimp only
    rw [if_neg (not_not.mpr magic), loadSegments_of_none isRead none, ok_bind]
    rfl
  exact ⟨_, loads.vacant, loads.ledger, ⟨rip, _, vspaceloadcode_of_opened opened reloaded isUnlocked
    rip⟩, notZero⟩

/-- The used `vpage_info`s are those of the pages in `[0, size)`, and no segment ends behind it. -/
structure Vregion.Matches (vr : Vregion) (loads : List Proghdr) : Prop where
  pages : ∀ idx, (vr.info idx).used = true ↔ idx * pgSize < vr.size
  covers : ∀ ph ∈ loads, ph.stop ≤ vr.size

/-- Every successful call for a file with these program headers returns the same. -/
def SizeDetermined (headers : List Proghdr) (sz : Int) : Prop :=
  ∀ garbage fs path ram vs other entry after ramAfter,
    Loads garbage fs path ram vs other entry after ramAfter →
    programHeaders fs path = some headers → other = sz

theorem lastStop_of_getLast {loads : List Proghdr} {last : Proghdr}
    (isLast : loads.getLast? = some last) (sz : Int) : lastStop sz loads = last.stop := by
  obtain ⟨before, rfl⟩ := List.getLast?_eq_some_iff.mp isLast
  rw [lastStop, List.foldl_append]
  rfl

theorem stop_le_totalStop {loads : List Proghdr} {ph : Proghdr} (member : ph ∈ loads) :
    ph.stop ≤ totalStop loads :=
  List.single_le_sum (fun _ _ => Nat.zero_le _) _ (List.mem_map_of_mem member)

theorem pgRoundUpInt_of_le {sz : Nat} (small : sz + pgSize ≤ 2 ^ 31) :
    pgRoundUpInt sz = pgRoundUp sz := by
  have wide : wrapInt ((sz : Int) + (pgSize - 1)) = (sz + (pgSize - 1) : Nat) := by
    grind [pgSize, wrapInt_of_lt]
  unfold pgRoundUpInt pgRoundUp toUint64
  rw [wide]
  unfold pgSize at *
  omega

/-- What the regions of a loaded program are, in terms of its program headers. -/
theorem Loads.code (loads : Loads garbage fs path ram vs sz entry after ramAfter)
    (isProgram : programHeaders fs path = some headers) :
    sz = lastStop garbage.toInt (segments headers) ∧
      (after.regions vrCode).size = pgRoundUpInt sz ∧
      totalStop (segments headers) + pgSize ≤ 2 ^ 31 ∧
      ∀ idx, ((after.regions vrCode).info idx).used = true ↔
        idx < pageCount (totalStop (segments headers)) := by
  obtain ⟨locked, ip, elf, opened, read⟩ := programHeaders_eq_some.mp isProgram
  obtain ⟨rip, fsAfter, returns⟩ := loads.returns
  obtain ⟨extra, user, ledger⟩ := loads.ledger
  obtain ⟨fsLocked, place, elfRead, headersRead, code, filled, isOpened, isRead, isSize, -, isAfter,
    loading, -⟩ := vspaceloadcode_loads loads.vacant ledger returns loads.success
  rw [opened] at isOpened
  obtain ⟨rfl, rfl⟩ := Prod.mk.inj (Option.some_inj.mp (Except.ok.inj isOpened))
  rw [read] at isRead
  obtain ⟨rfl, rfl⟩ := Prod.mk.inj (Option.some_inj.mp (Except.ok.inj isRead))
  have isCode : after.regions vrCode = { code with size := pgRoundUpInt sz } := by
    rw [isAfter]
    rfl
  refine ⟨isSize, ?_, lt_of_pageCount_lt loading.pages_lt, fun idx => ?_⟩
  · rw [isCode]
  · rw [isCode]
    exact loading.used_iff idx

/-- The bounds of the code region match its pages, and the size depends on the file alone, exactly
if the file has a segment and the sum of the ends of its segments is in the same page as the end of
the last. -/
theorem loads_matches_iff (loads : Loads garbage fs path ram vs sz entry after ramAfter)
    (isProgram : programHeaders fs path = some headers) :
    ((after.regions vrCode).Matches (segments headers) ∧ SizeDetermined headers sz) ↔
      ∃ last, (segments headers).getLast? = some last ∧
        pgRoundUp (totalStop (segments headers)) = pgRoundUp last.stop := by
  obtain ⟨isSize, isBound, small, used⟩ := loads.code isProgram
  cases isLast : (segments headers).getLast? with
  | none =>
    have none : segments headers = [] := List.getLast?_eq_none_iff.mp isLast
    refine ⟨fun ⟨_, determined⟩ => ?_, fun ⟨last, isSome, _⟩ => by cases isSome⟩
    -- `sz` is what it was before, and could have been something else
    obtain ⟨firstAfter, first⟩ := loads.of_none isProgram none 1 (by decide)
    obtain ⟨secondAfter, second⟩ := loads.of_none isProgram none 2 (by decide)
    have one := determined _ _ _ _ _ _ _ _ _ first isProgram
    have two := determined _ _ _ _ _ _ _ _ _ second isProgram
    exact absurd (one.trans two.symm) (by decide)
  | some last =>
    have member : last ∈ segments headers := List.mem_of_getLast? isLast
    have lastSmall := stop_le_totalStop member
    have isStop := lastStop_of_getLast isLast
    rw [isStop] at isSize
    rw [isSize, pgRoundUpInt_of_le (by omega)] at isBound
    have rounds : pgRoundUp (totalStop (segments headers)) =
        pageCount (totalStop (segments headers)) * pgSize := rfl
    constructor
    · rintro ⟨isMatch, -⟩
      refine ⟨last, rfl, ?_⟩
      have samePages : pageCount (totalStop (segments headers)) = pageCount last.stop := by
        refine eq_of_forall_lt_iff fun idx => ?_
        rw [← used, isMatch.pages, isBound]
        exact Nat.mul_lt_mul_right (by decide)
      exact congrArg (· * pgSize) samePages
    · rintro ⟨_, isSome, sameRound⟩
      obtain rfl := Option.some_inj.mp isSome
      refine ⟨⟨fun idx => ?_, fun ph inSegments => ?_⟩, ?_⟩
      · rw [used, isBound, ← sameRound, rounds]
        exact (Nat.mul_lt_mul_right (by decide)).symm
      · rw [isBound, ← sameRound]
        exact (stop_le_totalStop inSegments).trans (le_pgRoundUp _)
      · intro _ _ _ _ _ other _ _ _ otherLoads sameHeaders
        rw [(otherLoads.code sameHeaders).1, isStop, isSize]

end Programs

/-! ### Small programs -/

/-- Right after `mem_init` no page has an owner. -/
theorem Ledger.bootMemory {boot : Boot} (sound : boot.Sound) (frame : Nat → Frame) (data : Nat)
    (starved : Bool) : Ledger ⟨Xk.bootMemory boot frame, data, starved⟩ 0 0 where
  sound := sound
  balanced := ⟨_, Balanced.bootMemory sound frame⟩
  counts page := by
    show ((Xk.bootMemory boot frame).coreMap page).refCount = 0
    unfold Xk.bootMemory
    dsimp only
    split_ifs
    · rfl
    · rfl
  apart page member := absurd member (Multiset.notMem_zero page)

/-- A machine with 64 pages after `mem_init`. -/
def bootedRam : Ram := ⟨bootMemory smallRam.memory.boot fun _ => memsetFrame 0, 0, false⟩

/-- An address space with three empty regions and no page table. -/
def emptySpace : Vspace := ⟨![⟨⟨.up, 0, 0⟩, []⟩, ⟨⟨.up, 0, 0⟩, []⟩, ⟨⟨.down, 0, 0⟩, []⟩], .absent⟩

/-- The bytes of a program header of type `ELF_PROG_LOAD`. -/
def segmentBytes (off vaddr filesz memsz : Nat) : List UInt8 :=
  Bytes.little 4 1 ++ Bytes.little 4 0 ++ Bytes.little 8 off ++ Bytes.little 8 vaddr ++
    Bytes.little 8 0 ++ Bytes.little 8 filesz ++ Bytes.little 8 memsz ++ Bytes.little 8 0

/-- The bytes of a program with the given program headers right behind its header. -/
def elfBytes (phnum : Nat) (headers : List UInt8) : List UInt8 :=
  Bytes.little 4 0x464C457F ++ List.replicate 20 0 ++ Bytes.little 8 0 ++ Bytes.little 8 64 ++
    List.replicate 16 0 ++ Bytes.little 2 phnum ++ List.replicate 6 0 ++ headers

/-- A file system whose root inode, in the cache, has the given bytes as its first block. -/
def programFs (bytes : List UInt8) : FileSystem where
  disk := ⟨1, fun a => bytes.getD a 0, oneBlock_linked⟩
  devsw := ⟨fun _ => none, fun _ => none⟩
  sb := ⟨1, 1, 0, 0⟩
  inode := fun _ =>
    { Inode.zero with
      dev := rootdev, inum := rootino, ref := 1, valid := true, type := tDir, size := 512,
      data := .single ⟨0, 1⟩ }
  inodefile := .zero

/-- A program with one segment of one byte. -/
def oneSegment : FileSystem := programFs (elfBytes 1 (segmentBytes 0 0 0 1))

/-- A program with two segments, one behind the other, of a page each. -/
def twoSegments : FileSystem :=
  programFs (elfBytes 2 (segmentBytes 0 0 0 4096 ++ segmentBytes 0 4096 0 4096))

theorem emptySpace_kernelFrames : emptySpace.kernelFrames = 0 := by rfl

/-- A call on a booted machine that returns a size. -/
theorem bootedRam_loads {fs : FileSystem} {sz : Int}
    (returns : (vspaceloadcode 0 fs bootedRam emptySpace [slash] 0).toOption.map Prod.fst = some sz)
    (success : sz ≠ 0) :
    ∃ entry after ramAfter, Loads 0 fs [slash] bootedRam emptySpace sz entry after ramAfter := by
  obtain ⟨⟨size, entry, after, ramAfter, fsAfter⟩, isOk, rfl⟩ := Option.map_eq_some_iff.mp returns
  refine ⟨entry, after, ramAfter, ⟨rfl, fun idx => rfl⟩, ⟨0, 0, ?_⟩,
    ⟨0, fsAfter, ok_of_toOption isOk⟩, success⟩
  rw [emptySpace_kernelFrames]
  exact Ledger.bootMemory (by decide) _ _ _

/-- One segment: the bounds match the one page. -/
theorem loads_matches_iff_oneSegment : ∃ entry after ramAfter,
    Loads 0 oneSegment [slash] bootedRam emptySpace 1 entry after ramAfter ∧
      (after.regions vrCode).Matches (segments [⟨1, 0, 0, 0, 1⟩]) ∧
      SizeDetermined [⟨1, 0, 0, 0, 1⟩] 1 := by
  obtain ⟨entry, after, ramAfter, loads⟩ :=
    @bootedRam_loads oneSegment 1 (by decide +kernel) (by decide)
  have isProgram : programHeaders oneSegment [slash] = some [⟨1, 0, 0, 0, 1⟩] := by decide +kernel
  exact ⟨entry, after, ramAfter, loads,
    (loads_matches_iff loads isProgram).mpr ⟨⟨1, 0, 0, 0, 1⟩, by decide, by decide⟩⟩

/-- Two segments: the region ends at 8192 and has a page at 8192. -/
theorem twoSegments_pageBehind :
    (vspaceloadcode 0 twoSegments bootedRam emptySpace [slash] 0).toOption.map
      (fun (sz, _, after, _) => (sz, (after.regions vrCode).size,
        ((after.regions vrCode).info 2).used)) = some (8192, 8192, true) := by
  decide +kernel

end Xk
