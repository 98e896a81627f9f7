import S5LBox.Soc.Bus

/-!
# Routing

The windows of a machine lie apart: the table of devices by itself, RAM because a machine that
would cover a device is not built, and stubs because they are refused. So an access has one target
at most, reads and writes have the same one, and what is indexed is there.
-/

namespace S5LBox.Soc

open List

variable {m m' : Machine} {addr val : Word} {bytes : ℕ} {t t' : Target}

/-- The window of a device in the map. -/
def Device.window : Device → BusWindow
  | uart0 => ⟨uart0Base, devSize⟩
  | uart4 => ⟨uart4Base, devSize⟩
  | vic0 => ⟨vic0Base, devSize⟩
  | vic1 => ⟨vic1Base, devSize⟩
  | clcd => ⟨clcdBase, devSize⟩
  | tvoutCtrl => ⟨tvoutCtrlBase, tvoutBankSize⟩
  | tvoutMixer => ⟨tvoutMixerBase, tvoutBankSize⟩
  | tvoutSdo => ⟨tvoutSdoBase, tvoutBankSize⟩
  | timer => ⟨timerBase, timerSize⟩
  | power => ⟨powerBase, powerSize⟩
  | mbx => ⟨mbxBase, mbxAperture⟩
  | gpioic => ⟨gpioicBase, gpioicSize⟩
  | gpio => ⟨gpioBase, devSize⟩
  | i2c0 => ⟨i2c0Base, devSize⟩
  | i2c1 => ⟨i2c1Base, devSize⟩
  | i2s0 => ⟨i2s0Base, devSize⟩
  | i2s1 => ⟨i2s1Base, devSize⟩
  | spi0 => ⟨spi0Base, devSize⟩
  | spi1 => ⟨spi1Base, devSize⟩
  | usbOtg => ⟨usbOtgBase, devSize⟩
  | dmac0 => ⟨dmac0Base, devSize⟩
  | dmac1 => ⟨dmac1Base, devSize⟩
  | nor => ⟨norBase, norSize⟩

/-- The widths and alignments that a device takes. -/
def Device.accepts (addr : Word) (bytes : ℕ) : Device → Prop
  | uart0 | uart4 => narrow bytes ∧ addr &&& 3 = 0
  | tvoutCtrl | tvoutMixer | tvoutSdo | gpio | nor => narrow bytes
  | i2s0 | i2s1 | spi0 | spi1 => narrow bytes ∧ addr &&& BitVec.ofNat 32 (bytes - 1) = 0
  | _ => bytes = 4 ∧ addr &&& 3 = 0

def BusWindow.span (w : BusWindow) : Window := ⟨w.base.toNat, w.size.toNat⟩

/-- The window of a target; a stub that is not there has an empty one. -/
def Machine.window (m : Machine) : Target → BusWindow
  | .ram => ⟨m.ramBase, m.ramSize⟩
  | .device d => d.window
  | .stub index =>
    match m.stubs[index]? with
    | some s => ⟨s.base, s.size⟩
    | none => ⟨0, 0⟩

def Machine.span (m : Machine) (t : Target) : Window := (m.window t).span

/-- The target takes the access, whatever the others do. -/
def Claims (m : Machine) (addr : Word) (bytes : ℕ) : Target → Prop
  | .ram => inRam m addr bytes
  | .device d => d.accepts addr bytes ∧ inWindow addr bytes d.window.base d.window.size
  | .stub index => ∃ s, m.stubs[index]? = some s ∧ inWindow addr bytes s.base s.size

/-- Where the offsets of a target are counted from. -/
def Machine.origin (m : Machine) : Target → Word
  | .device .gpioic => gpioicPage
  | t => (m.window t).base

variable {index : ℕ} {s : Stub} {off : Word} {cell : ℕ × ℕ}

theorem Machine.window_stub (h : m.stubs[index]? = some s) :
    m.window (.stub index) = ⟨s.base, s.size⟩ := by
  unfold Machine.window
  dsimp only
  rw [h]

theorem Machine.stubBase_eq (h : m.stubs[index]? = some s) : m.stubBase index = s.base := by
  unfold Machine.stubBase
  rw [h]

theorem inWindow_iff (w : BusWindow) :
    inWindow addr bytes w.base w.size ↔ w.span.Holds addr.toNat bytes := by
  unfold inWindow Window.Holds BusWindow.span
  rw [decide_eq_true_iff, BitVec.le_def]
  constructor
  · rintro ⟨hbytes, hbase, hend⟩
    rw [BitVec.toNat_sub_of_le (BitVec.le_def.2 hbase)] at hend
    dsimp only
    exact ⟨hbytes, hbase, by omega⟩
  · rintro ⟨hbytes, hbase, hend⟩
    rw [BitVec.toNat_sub_of_le (BitVec.le_def.2 hbase)]
    dsimp only at hbase hend
    exact ⟨hbytes, hbase, by omega⟩

theorem inRam_iff (h : bytes ≠ 0) : inRam m addr bytes ↔ (m.span .ram).Holds addr.toNat bytes := by
  have hwindow := @inWindow_iff addr bytes ⟨m.ramBase, m.ramSize⟩
  refine Iff.trans ?_ hwindow
  unfold inRam inWindow
  rw [decide_eq_true_iff, decide_eq_true_iff]
  exact ⟨fun hin ↦ ⟨h, hin⟩, fun hin ↦ hin.2⟩

theorem apart_of_not_overlaps {a alen b blen : Word} (h : overlaps a alen b blen = false)
    (ha : alen ≠ 0) (hb : blen ≠ 0) :
    (BusWindow.span ⟨a, alen⟩).Apart (BusWindow.span ⟨b, blen⟩) := by
  unfold overlaps at h
  rw [decide_eq_false_iff_not] at h
  unfold Window.Apart BusWindow.span
  dsimp only
  by_contra hno
  exact h ⟨ha, hb, by omega, by omega⟩

def Device.all : List Device :=
  [uart0, uart4, vic0, vic1, clcd, tvoutCtrl, tvoutMixer, tvoutSdo, timer, power, mbx, gpioic, gpio,
    i2c0, i2c1, i2s0, i2s1, spi0, spi1, usbOtg, dmac0, dmac1, nor]

theorem Device.mem_all (d : Device) : d ∈ Device.all := by
  cases d <;> decide

theorem Device.window_mem (d : Device) : d.window ∈ deviceWindows := by
  cases d <;> decide

theorem Device.window_size_ne (d : Device) : d.window.size ≠ 0 := by
  cases d <;> decide

theorem Device.apart {d d' : Device} (h : d ≠ d') : d.window.span.Apart d'.window.span := by
  have hall : ∀ d ∈ Device.all, ∀ d' ∈ Device.all,
      d = d' ∨ d.window.span.Apart d'.window.span := by decide +kernel
  exact (hall d d.mem_all d' d'.mem_all).resolve_left h

/-- What holds of every machine: the windows lie apart, and the arrays are as long as they say. -/
structure Laid (m : Machine) : Prop where
  ram_end : m.ramBase.toNat + m.ramSize.toNat ≤ 2 ^ 32
  ram_length : m.ram.length = m.ramSize.toNat
  ram_some : m.ramSize ≠ 0
  nor : m.norSize = norSize
  count : m.stubs.length ≤ stubMax
  stub_end : ∀ s ∈ m.stubs, s.base.toNat + s.size.toNat ≤ 2 ^ 32
  stub_some : ∀ s ∈ m.stubs, s.size ≠ 0
  stub_regs : ∀ s ∈ m.stubs, s.regs.length = (s.size.toNat + 3) / 4
  disjoint : Window.Disjoint m.span

theorem apart_empty (w : Window) : (BusWindow.span ⟨0, 0⟩).Apart w := .inl (Nat.zero_le _)

theorem disjoint_of (hram : ∀ d : Device, (m.span .ram).Apart d.window.span)
    (hstub : ∀ s ∈ m.stubs, (BusWindow.span ⟨s.base, s.size⟩).Apart (m.span .ram) ∧
      ∀ d : Device, (BusWindow.span ⟨s.base, s.size⟩).Apart d.window.span)
    (hstubs : ∀ i j (hi : i < m.stubs.length) (hj : j < m.stubs.length), i < j →
      (BusWindow.span ⟨m.stubs[i].base, m.stubs[i].size⟩).Apart
        (BusWindow.span ⟨m.stubs[j].base, m.stubs[j].size⟩)) :
    Window.Disjoint m.span := by
  -- A stub against anything, given that it is there or not.
  have hany (index : ℕ) (w : Window)
      (h : ∀ s ∈ m.stubs, (BusWindow.span ⟨s.base, s.size⟩).Apart w) :
      (m.span (.stub index)).Apart w := by
    unfold Machine.span Machine.window
    dsimp only
    split
    case h_1 s hs => exact h s (mem_of_getElem? hs)
    case h_2 => exact apart_empty w
  intro t t' hne
  cases t with
  | ram =>
    cases t' with
    | ram => exact absurd rfl hne
    | device d => exact hram d
    | stub index => exact (hany index _ fun s hs ↦ (hstub s hs).1).symm
  | device d =>
    cases t' with
    | ram => exact (hram d).symm
    | device d' => exact Device.apart fun hsame ↦ hne (congrArg _ hsame)
    | stub index => exact (hany index _ fun s hs ↦ (hstub s hs).2 d).symm
  | stub index =>
    cases t' with
    | ram => exact hany index _ fun s hs ↦ (hstub s hs).1
    | device d => exact hany index _ fun s hs ↦ (hstub s hs).2 d
    | stub other =>
      have hindex : index ≠ other := fun hsame ↦ hne (congrArg _ hsame)
      unfold Machine.span Machine.window
      dsimp only
      split
      case h_2 => exact apart_empty _
      case h_1 s hs =>
        split
        case h_2 => exact (apart_empty _).symm
        case h_1 s' hs' =>
          obtain ⟨hi, rfl⟩ := List.getElem?_eq_some_iff.1 hs
          obtain ⟨hj, rfl⟩ := List.getElem?_eq_some_iff.1 hs'
          rcases Nat.lt_or_gt_of_ne hindex with hlt | hgt
          · exact hstubs index other hi hj hlt
          · exact (hstubs other index hj hi hgt).symm

theorem Laid.apart_ram (h : Laid m) (d : Device) : (m.span .ram).Apart d.window.span :=
  h.disjoint .ram (.device d) (by simp)

theorem Laid.apart_stub (h : Laid m) {s : Stub} (hs : s ∈ m.stubs) {t : Target}
    (ht : ∀ index, t ≠ .stub index) : (BusWindow.span ⟨s.base, s.size⟩).Apart (m.span t) := by
  obtain ⟨index, hindex, rfl⟩ := getElem_of_mem hs
  have hapart := h.disjoint (.stub index) t (ht index).symm
  have hwindow := Machine.window_stub (getElem?_eq_getElem hindex)
  unfold Machine.span at hapart
  rwa [hwindow] at hapart

theorem Laid.apart_stubs (h : Laid m) {i j : ℕ} (hi : i < m.stubs.length)
    (hj : j < m.stubs.length) (hlt : i < j) :
    (BusWindow.span ⟨m.stubs[i].base, m.stubs[i].size⟩).Apart
      (BusWindow.span ⟨m.stubs[j].base, m.stubs[j].size⟩) := by
  have hapart := h.disjoint (.stub i) (.stub j) (by simpa using hlt.ne)
  have hwindow := Machine.window_stub (getElem?_eq_getElem hi)
  have hwindow' := Machine.window_stub (getElem?_eq_getElem hj)
  unfold Machine.span at hapart
  rwa [hwindow, hwindow'] at hapart

/-- The stub that is added. -/
def Stub.blank (base size : Word) : Stub :=
  { base, size, regs := List.replicate ((size.toNat + 3) / 4) 0, reads := 0, writes := 0 }

theorem addStub_cases (granted : Bool) (m : Machine) (base size : Word) :
    (addStub granted m base size).2 = m ∨
      (addStub granted m base size).2 = { m with stubs := m.stubs ++ [.blank base size] } ∧
        m.stubs.length < stubMax ∧ size ≠ 0 ∧ base.toNat + size.toNat ≤ 2 ^ 32 ∧
        (∀ w ∈ deviceWindows, overlaps base size w.base w.size = false) ∧
        (∀ s ∈ m.stubs, overlaps base size s.base s.size = false) ∧
        overlaps base size m.ramBase m.ramSize = false := by
  unfold addStub
  split
  · exact .inl rfl
  case isFalse hroom =>
    rw [not_or] at hroom
    split
    · exact .inl rfl
    case isFalse hend =>
      split
      · exact .inl rfl
      case isFalse hdevices =>
        split
        · exact .inl rfl
        case isFalse hstubs =>
          split
          · exact .inl rfl
          case isFalse hram =>
            dsimp only
            split
            · exact .inl rfl
            case isFalse =>
              rw [Bool.not_eq_true] at hdevices hstubs hram
              refine .inr ⟨rfl, Nat.lt_of_not_le hroom.1, hroom.2, Nat.le_of_not_lt hend, ?_, ?_, hram⟩
              · simpa using hdevices
              · simpa using hstubs

theorem addStub_laid (h : Laid m) (granted : Bool) (base size : Word) :
    Laid (addStub granted m base size).2 := by
  rcases addStub_cases granted m base size with
    heq | ⟨heq, hroom, hsize, hend, hdevices, hstubs, hram⟩
  · rw [heq]
    exact h
  · rw [heq]
    have hmem (s : Stub) (hs : s ∈ m.stubs ++ [.blank base size]) :
        s ∈ m.stubs ∨ s = .blank base size := by simpa using hs
    refine ⟨h.ram_end, h.ram_length, h.ram_some, h.nor, ?_, ?_, ?_, ?_, disjoint_of h.apart_ram ?_ ?_⟩
    · dsimp only
      rw [length_append, length_singleton]
      exact hroom
    · intro s hs
      rcases hmem s hs with hs | rfl
      · exact h.stub_end s hs
      · exact hend
    · intro s hs
      rcases hmem s hs with hs | rfl
      · exact h.stub_some s hs
      · exact hsize
    · intro s hs
      rcases hmem s hs with hs | rfl
      · exact h.stub_regs s hs
      · exact length_replicate
    · intro s hs
      rcases hmem s hs with hs | rfl
      · refine ⟨?_, ?_⟩
        · exact @Laid.apart_stub _ h _ hs .ram (by simp)
        · exact fun d ↦ @Laid.apart_stub _ h _ hs (.device d) (by simp)
      · refine ⟨apart_of_not_overlaps hram hsize h.ram_some, ?_⟩
        intro d
        have hnone := hdevices _ d.window_mem
        exact apart_of_not_overlaps hnone hsize d.window_size_ne
    · intro i j hi hj hlt
      dsimp only at hi hj ⊢
      rw [length_append, length_singleton] at hi hj
      have hi' : i < m.stubs.length := by omega
      rw [getElem_append_left hi']
      by_cases hj' : j < m.stubs.length
      · rw [getElem_append_left hj']
        exact h.apart_stubs hi' hj' hlt
      · have hlast : j = m.stubs.length := by omega
        subst hlast
        rw [getElem_concat_length rfl]
        have hother := getElem_mem hi'
        exact (apart_of_not_overlaps (hstubs _ hother) hsize (h.stub_some _ hother)).symm

/-- The window of a stub, and how many registers it has. -/
def Stub.shape (s : Stub) : Word × Word × ℕ := (s.base, s.size, s.regs.length)

theorem Stub.shape_eq {s' : Stub} : s.shape = s'.shape ↔
    s.base = s'.base ∧ s.size = s'.size ∧ s.regs.length = s'.regs.length := by
  unfold Stub.shape
  rw [Prod.mk.injEq, Prod.mk.injEq]

/-- The windows and the lengths are the same. -/
structure Alike (m m' : Machine) : Prop where
  ramBase : m'.ramBase = m.ramBase
  ramSize : m'.ramSize = m.ramSize
  ram : m'.ram.length = m.ram.length
  norSize : m'.norSize = m.norSize
  stubs : m'.stubs.map Stub.shape = m.stubs.map Stub.shape

theorem Alike.span_eq (h : Alike m m') : m'.span = m.span := by
  funext t
  unfold Machine.span Machine.window
  cases t with
  | ram => rw [h.ramBase, h.ramSize]
  | device d => rfl
  | stub index =>
    have hindex := congrArg (·[index]?) h.stubs
    dsimp only at hindex ⊢
    rw [getElem?_map, getElem?_map] at hindex
    rcases hs : m.stubs[index]? with _ | s <;> rcases hs' : m'.stubs[index]? with _ | s'
    · rfl
    · rw [hs, hs'] at hindex
      cases hindex
    · rw [hs, hs'] at hindex
      cases hindex
    · rw [hs, hs'] at hindex
      obtain ⟨hbase, hsize, -⟩ := Stub.shape_eq.1 (Option.some.inj hindex)
      dsimp only
      rw [hbase, hsize]

theorem Laid.alike (hm : Laid m) (h : Alike m m') : Laid m' := by
  have hmem (s' : Stub) (hs' : s' ∈ m'.stubs) : ∃ s ∈ m.stubs, s.shape = s'.shape := by
    have hshape := mem_map_of_mem (f := Stub.shape) hs'
    rw [h.stubs] at hshape
    exact mem_map.1 hshape
  refine ⟨?_, ?_, ?_, ?_, ?_, ?_, ?_, ?_, ?_⟩
  · rw [h.ramBase, h.ramSize]
    exact hm.ram_end
  · rw [h.ram, h.ramSize]
    exact hm.ram_length
  · rw [h.ramSize]
    exact hm.ram_some
  · rw [h.norSize]
    exact hm.nor
  · have hlength := congrArg List.length h.stubs
    rw [length_map, length_map] at hlength
    rw [hlength]
    exact hm.count
  · intro s' hs'
    obtain ⟨s, hs, hshape⟩ := hmem s' hs'
    obtain ⟨hbase, hsize, -⟩ := Stub.shape_eq.1 hshape
    rw [← hbase, ← hsize]
    exact hm.stub_end s hs
  · intro s' hs'
    obtain ⟨s, hs, hshape⟩ := hmem s' hs'
    obtain ⟨-, hsize, -⟩ := Stub.shape_eq.1 hshape
    rw [← hsize]
    exact hm.stub_some s hs
  · intro s' hs'
    obtain ⟨s, hs, hshape⟩ := hmem s' hs'
    obtain ⟨-, hsize, hregs⟩ := Stub.shape_eq.1 hshape
    rw [← hsize, ← hregs]
    exact hm.stub_regs s hs
  · rw [h.span_eq]
    exact hm.disjoint

theorem declareStubs_laid (h : Laid m) (known : List (BusWindow × Bool)) :
    Laid (declareStubs known m) := by
  induction known generalizing m with
  | nil => exact h
  | cons entry rest ih =>
    obtain ⟨w, granted⟩ := entry
    have hadded := addStub_laid h granted w.base w.size
    rw [declareStubs]
    split
    case h_1 heq =>
      rw [heq] at hadded
      exact ih hadded
    case h_2 heq =>
      rw [heq] at hadded
      exact ih (hadded.alike ⟨rfl, rfl, rfl, rfl, rfl⟩)

theorem init_laid {granted : Bool} {stubGranted : List Bool} {ramBase ramSize : Word}
    (h : init granted stubGranted ramBase ramSize = some m) : Laid m := by
  unfold init at h
  split at h
  · cases h
  case isFalse hguard =>
    split at h
    · cases h
    case isFalse =>
      obtain rfl := Option.some.inj h
      rw [not_or, not_or] at hguard
      obtain ⟨hsome, hend, hconflict⟩ := hguard
      unfold ramConflict at hconflict
      rw [Bool.not_eq_true, any_eq_false] at hconflict
      refine (declareStubs_laid ?_ (knownStubs.zip stubGranted)).alike ⟨rfl, rfl, rfl, rfl, rfl⟩
      have hnone (s : Stub) : s ∉ ([] : List Stub) := not_mem_nil
      refine ⟨Nat.le_of_not_lt hend, length_replicate, hsome, rfl, Nat.zero_le _,
        fun s hs ↦ absurd hs (hnone s), fun s hs ↦ absurd hs (hnone s),
        fun s hs ↦ absurd hs (hnone s), disjoint_of ?_ ?_ ?_⟩
      · intro d
        have hapart : overlaps ramBase ramSize d.window.base d.window.size = false := by
          simpa using hconflict _ d.window_mem
        exact apart_of_not_overlaps hapart hsome d.window_size_ne
      · exact fun s hs ↦ absurd hs (hnone s)
      · intro i j hi
        cases hi

theorem mmioWord_iff {base size : Word} : mmioWord addr bytes base size ↔
    (bytes = 4 ∧ addr &&& 3 = 0) ∧ inWindow addr bytes base size := by
  unfold mmioWord
  rw [decide_eq_true_iff, and_assoc]

theorem mmioData_iff {base size : Word} : mmioData addr bytes base size ↔
    (narrow bytes ∧ addr &&& BitVec.ofNat 32 (bytes - 1) = 0) ∧ inWindow addr bytes base size := by
  unfold mmioData
  rw [decide_eq_true_iff, and_assoc]

theorem findStub_eq_some (h : findStub m addr bytes = some index) :
    Claims m addr bytes (.stub index) := by
  obtain ⟨hindex, hin, -⟩ := findIdx?_eq_some_iff_getElem.1 h
  exact ⟨_, getElem?_eq_getElem hindex, hin⟩

theorem ite_eq_some_cases {α : Type} {c : Prop} [Decidable c] {x y : α} {rest : Option α}
    (h : (if c then some x else rest) = some y) : c ∧ x = y ∨ rest = some y := by
  by_cases hc : c
  · rw [if_pos hc] at h
    exact .inl ⟨hc, Option.some.inj h⟩
  · rw [if_neg hc] at h
    exact .inr h

theorem ite_eq_none_iff {α : Type} {c : Prop} [Decidable c] {x : α} {rest : Option α} :
    (if c then some x else rest) = none ↔ ¬c ∧ rest = none := by
  by_cases hc : c <;> simp [hc]

theorem readTarget_claims (hm : Laid m) (h : readTarget m addr bytes = some (t, off)) :
    Claims m addr bytes t ∧ off = addr - m.origin t := by
  unfold readTarget at h
  rw [hm.nor] at h
  iterate 24
    rcases ite_eq_some_cases h with ⟨hc, heq⟩ | h
    · obtain ⟨rfl, rfl⟩ := Prod.mk.inj heq
      refine ⟨?_, rfl⟩
      first
        | exact hc
        | exact mmioWord_iff.1 hc
        | exact mmioData_iff.1 hc
        | exact ⟨⟨hc.1, hc.2.1⟩, hc.2.2⟩
  obtain ⟨index, hindex, heq⟩ := Option.map_eq_some_iff.1 h
  obtain ⟨rfl, rfl⟩ := Prod.mk.inj heq
  refine ⟨findStub_eq_some hindex, ?_⟩
  obtain ⟨s, hs, -⟩ := findStub_eq_some hindex
  have horigin : m.origin (.stub index) = (m.window (.stub index)).base := rfl
  rw [horigin, Machine.window_stub hs, Machine.stubBase_eq hs]

theorem not_claims_of_readTarget (hm : Laid m) (h : readTarget m addr bytes = none) (t : Target) :
    ¬Claims m addr bytes t := by
  unfold readTarget at h
  rw [hm.nor] at h
  simp only [ite_eq_none_iff, Option.map_eq_none_iff] at h
  obtain ⟨hram, huart0, huart4, hvic0, hvic1, hclcd, hctrl, hmixer, hsdo, htimer, hpower, hmbx,
    hgpioic, hgpio, hi2c0, hi2c1, hi2s0, hi2s1, hspi0, hspi1, husb, hdmac0, hdmac1, hnor, hstub⟩ := h
  intro hclaims
  cases t with
  | ram => exact hram hclaims
  | stub index =>
    obtain ⟨s, hs, hin⟩ := hclaims
    have hnone := findIdx?_eq_none_iff.1 hstub s (mem_of_getElem? hs)
    rw [hnone] at hin
    cases hin
  | device d =>
    cases d with
    | uart0 => exact huart0 ⟨hclaims.1.1, hclaims.1.2, hclaims.2⟩
    | uart4 => exact huart4 ⟨hclaims.1.1, hclaims.1.2, hclaims.2⟩
    | vic0 => exact hvic0 (mmioWord_iff.2 hclaims)
    | vic1 => exact hvic1 (mmioWord_iff.2 hclaims)
    | clcd => exact hclcd (mmioWord_iff.2 hclaims)
    | tvoutCtrl => exact hctrl hclaims
    | tvoutMixer => exact hmixer hclaims
    | tvoutSdo => exact hsdo hclaims
    | timer => exact htimer (mmioWord_iff.2 hclaims)
    | power => exact hpower (mmioWord_iff.2 hclaims)
    | mbx => exact hmbx (mmioWord_iff.2 hclaims)
    | gpioic => exact hgpioic (mmioWord_iff.2 hclaims)
    | gpio => exact hgpio hclaims
    | i2c0 => exact hi2c0 (mmioWord_iff.2 hclaims)
    | i2c1 => exact hi2c1 (mmioWord_iff.2 hclaims)
    | i2s0 => exact hi2s0 (mmioData_iff.2 hclaims)
    | i2s1 => exact hi2s1 (mmioData_iff.2 hclaims)
    | spi0 => exact hspi0 (mmioData_iff.2 hclaims)
    | spi1 => exact hspi1 (mmioData_iff.2 hclaims)
    | usbOtg => exact husb (mmioWord_iff.2 hclaims)
    | dmac0 => exact hdmac0 (mmioWord_iff.2 hclaims)
    | dmac1 => exact hdmac1 (mmioWord_iff.2 hclaims)
    | nor => exact hnor hclaims

theorem Claims.holds (h : Claims m addr bytes t) (hbytes : bytes ≠ 0) :
    (m.span t).Holds addr.toNat bytes := by
  cases t with
  | ram => exact (inRam_iff hbytes).1 h
  | device d => exact (inWindow_iff d.window).1 h.2
  | stub index =>
    obtain ⟨s, hs, hin⟩ := h
    have hholds := (inWindow_iff ⟨s.base, s.size⟩).1 hin
    unfold Machine.span
    rwa [Machine.window_stub hs]

theorem Claims.eq_ram (h : Claims m addr 0 t) : t = .ram := by
  have hnone (base size : Word) : ¬inWindow addr 0 base size := by
    unfold inWindow
    rw [decide_eq_true_iff]
    exact fun hin ↦ hin.1 rfl
  cases t with
  | ram => rfl
  | device d => exact absurd h.2 (hnone _ _)
  | stub index =>
    obtain ⟨s, -, hin⟩ := h
    exact absurd hin (hnone _ _)

theorem Claims.unique (hm : Laid m) (h : Claims m addr bytes t) (h' : Claims m addr bytes t') :
    t = t' := by
  by_cases hbytes : bytes = 0
  · subst hbytes
    exact h.eq_ram.trans h'.eq_ram.symm
  · exact hm.disjoint.eq (h.holds hbytes).covers (h'.holds hbytes).covers

theorem readTarget_iff (hm : Laid m) : readTarget m addr bytes = some (t, off) ↔
    Claims m addr bytes t ∧ off = addr - m.origin t := by
  constructor
  · exact readTarget_claims hm
  · rintro ⟨hclaims, rfl⟩
    rcases htarget : readTarget m addr bytes with _ | ⟨t', off'⟩
    · exact absurd hclaims (not_claims_of_readTarget hm htarget t)
    · obtain ⟨hclaims', rfl⟩ := readTarget_claims hm htarget
      rw [hclaims.unique hm hclaims']

/-- The two chains of the source are one. -/
theorem writeTarget_eq (m : Machine) (addr : Word) (bytes : ℕ) :
    writeTarget m addr bytes = readTarget m addr bytes := rfl

/-- How far the offsets of a target go. -/
def Machine.extent (m : Machine) : Target → ℕ
  | .device .gpioic => devSize.toNat
  | t => (m.window t).size.toNat

theorem offset_le (hm : Laid m) (h : readTarget m addr bytes = some (t, off)) :
    off.toNat + bytes ≤ m.extent t := by
  obtain ⟨hclaims, rfl⟩ := readTarget_claims hm h
  -- Everywhere but in one window the origin is the base.
  have hplain (w : BusWindow) (hin : w.base.toNat ≤ addr.toNat ∧
      addr.toNat + bytes ≤ w.base.toNat + w.size.toNat) :
      (addr - w.base).toNat + bytes ≤ w.size.toNat := by
    rw [BitVec.toNat_sub_of_le (BitVec.le_def.2 hin.1)]
    omega
  cases t with
  | ram =>
    unfold Claims inRam at hclaims
    rw [decide_eq_true_iff] at hclaims
    exact hclaims.2
  | stub index =>
    obtain ⟨s, hs, hin⟩ := hclaims
    obtain ⟨-, hin⟩ := (inWindow_iff ⟨s.base, s.size⟩).1 hin
    have horigin : m.origin (.stub index) = (m.window (.stub index)).base := rfl
    have hextent : m.extent (.stub index) = (m.window (.stub index)).size.toNat := rfl
    rw [horigin, hextent, Machine.window_stub hs]
    exact hplain ⟨s.base, s.size⟩ hin
  | device d =>
    obtain ⟨-, hin⟩ := hclaims
    obtain ⟨-, hin⟩ := (inWindow_iff d.window).1 hin
    by_cases hgpioic : d = .gpioic
    · subst hgpioic
      have hbase : gpioicPage.toNat + 0x80 = (Device.gpioic.window.span).base := by decide
      have hend : gpioicPage.toNat + devSize.toNat =
        (Device.gpioic.window.span).base + (Device.gpioic.window.span).size := by decide
      have hle : gpioicPage ≤ addr := by
        rw [BitVec.le_def]
        omega
      change (addr - gpioicPage).toNat + bytes ≤ devSize.toNat
      rw [BitVec.toNat_sub_of_le hle]
      omega
    · have hextent : m.extent (.device d) = d.window.size.toNat := by
        cases d <;> first | rfl | exact absurd rfl hgpioic
      have horigin : m.origin (.device d) = d.window.base := by
        cases d <;> first | rfl | exact absurd rfl hgpioic
      rw [hextent, horigin]
      exact hplain d.window hin

theorem stubReadLoop_isSome {s : Stub} {rel : Word} {turns i : ℕ} (v : Word)
    (hrel : rel.toNat + i + turns ≤ s.size.toNat) (hregs : s.regs.length = (s.size.toNat + 3) / 4) :
    (stubReadLoop s rel turns i v).isSome := by
  induction turns generalizing i v with
  | zero => rfl
  | succ turns ih =>
    have hindex : ((rel + BitVec.ofNat 32 i) >>> 2).toNat < s.regs.length := by
      rw [BitVec.toNat_ushiftRight, Nat.shiftRight_eq_div_pow, BitVec.toNat_add,
        BitVec.toNat_ofNat, hregs]
      omega
    rw [stubReadLoop, getElem?_eq_getElem hindex]
    exact ih _ (by omega)

theorem stubWriteLoop_isSome {s : Stub} {rel val : Word} {turns i : ℕ}
    (hrel : rel.toNat + i + turns ≤ s.size.toNat) (hregs : s.regs.length = (s.size.toNat + 3) / 4) :
    ∃ s', stubWriteLoop s rel val turns i = some s' ∧ s'.shape = s.shape := by
  induction turns generalizing i s with
  | zero => exact ⟨s, rfl, rfl⟩
  | succ turns ih =>
    have hindex : ((rel + BitVec.ofNat 32 i) >>> 2).toNat < s.regs.length := by
      rw [BitVec.toNat_ushiftRight, Nat.shiftRight_eq_div_pow, BitVec.toNat_add,
        BitVec.toNat_ofNat, hregs]
      omega
    rw [stubWriteLoop, getElem?_eq_getElem hindex]
    have hset (reg : Word) : (s.regs.set ((rel + BitVec.ofNat 32 i) >>> 2).toNat reg).length =
        (s.size.toNat + 3) / 4 := by rw [length_set, hregs]
    obtain ⟨s', hs', hshape⟩ := ih (s := { s with regs := _ }) (i := i + 1) (by dsimp only; omega) (hset _)
    refine ⟨s', hs', hshape.trans ?_⟩
    unfold Stub.shape
    rw [length_set]

theorem wordCells_lt {valid : Bool} (h : cell ∈ wordCells valid off bytes) : cell.1 < cell.2 := by
  unfold wordCells at h
  split at h
  case isTrue hin =>
    obtain ⟨i, hi, rfl⟩ := mem_map.1 h
    have hlt := mem_range.1 hi
    dsimp only
    rw [BitVec.toNat_ushiftRight, Nat.shiftRight_eq_div_pow, BitVec.toNat_add, BitVec.toNat_ofNat]
    omega
  case isFalse => cases h

theorem gpioicDecode_lt {base : Word} (h : cell ∈ gpioicDecode off base) : cell.1 < cell.2 := by
  unfold gpioicDecode at h
  split at h
  case isTrue hin =>
    obtain rfl := mem_singleton.1 h
    exact hin.2.2
  case isFalse => cases h

theorem onGrid_iff {first last : Word} (h : onGrid off first last) :
    first.toNat ≤ off.toNat ∧ off.toNat ≤ last.toNat := by
  unfold onGrid at h
  rw [decide_eq_true_iff, BitVec.le_def, BitVec.le_def] at h
  exact ⟨h.1, h.2.1⟩

theorem bank_lt {off first last : Word} {n : ℕ} (h : onGrid off first last)
    (hn : (last.toNat - first.toNat) / 4 < n) : ((off - first) / 4).toNat < n := by
  obtain ⟨hlow, hhigh⟩ := onGrid_iff h
  have hfour : (4 : Word).toNat = 4 := rfl
  rw [BitVec.toNat_udiv, BitVec.toNat_sub_of_le (BitVec.le_def.2 hlow), hfour]
  omega

theorem clcdCells_lt (h : cell ∈ clcdCells off) : cell.1 < cell.2 := by
  unfold clcdCells at h
  split at h
  case isTrue hin =>
    obtain rfl := mem_singleton.1 h
    exact @bank_lt off 0x28 0x54 12 hin (by decide)
  split at h
  case isTrue hin =>
    obtain rfl := mem_singleton.1 h
    exact @bank_lt off 0x1c8 0x1e8 9 hin (by decide)
  split at h
  case isTrue hin =>
    obtain rfl := mem_singleton.1 h
    exact @bank_lt off 0x208 0x218 5 hin (by decide)
  split at h
  case isTrue hin =>
    obtain rfl := mem_singleton.1 h
    rcases hin with rfl | rfl | rfl | rfl <;> decide
  split at h
  case isTrue =>
    obtain rfl := mem_singleton.1 h
    decide
  split at h
  case isTrue hin =>
    obtain rfl := mem_singleton.1 h
    exact hin.2
  split at h
  case isTrue hin =>
    obtain ⟨hlow, hhigh, -⟩ := hin
    rw [BitVec.le_def] at hlow
    rw [BitVec.lt_def] at hhigh
    have hvalue : (0x400 : Word).toNat = 0x400 := rfl
    have hvalue' : (0x1000 : Word).toNat = 0x1000 := rfl
    have hfour : (4 : Word).toNat = 4 := rfl
    have hsub := BitVec.toNat_sub_of_le (BitVec.le_def.2 hlow)
    rcases mem_cons.1 h with rfl | h
    · dsimp only
      rw [BitVec.toNat_udiv, hsub, hvalue]
      omega
    · obtain rfl := mem_singleton.1 h
      dsimp only
      rw [BitVec.toNat_udiv, BitVec.toNat_umod, hsub, hvalue, hfour]
      omega
  case isFalse => cases h

theorem deviceCells_lt {d : Device} (h : cell ∈ deviceCells m d off bytes) : cell.1 < cell.2 := by
  cases d with
  | clcd => exact clcdCells_lt h
  | tvoutCtrl => exact wordCells_lt h
  | tvoutMixer => exact wordCells_lt h
  | tvoutSdo => exact wordCells_lt h
  | gpio => exact wordCells_lt h
  | mbx =>
    unfold deviceCells at h
    dsimp only at h
    split at h
    case isTrue => cases h
    case isFalse hin =>
      have haperture : mbxAperture.toNat = 0x1000000 := rfl
      have hsize : mbxSize.toNat = 0x2000 := rfl
      have hedram : mbxEdramSize.toNat = 0xffe000 := rfl
      have hfour : (4 : Word).toNat = 4 := rfl
      rw [BitVec.le_def, haperture] at hin
      split at h
      case isTrue habove =>
        have hoff := BitVec.toNat_sub_of_le habove
        rw [BitVec.le_def, hsize] at habove
        rw [hsize] at hoff
        generalize off - mbxSize = o at h hoff
        split at h
        case isTrue => cases h
        case isFalse hroom =>
          rw [BitVec.lt_def, BitVec.toNat_add, hfour, hedram] at hroom
          have hnext (k : Word) (hk : k.toNat < 4) : (o + k).toNat < mbxEdramSize.toNat := by
            rw [BitVec.toNat_add, hedram]
            omega
          simp only [mem_cons, not_mem_nil, or_false] at h
          rcases h with rfl | rfl | rfl | rfl
          · dsimp only
            rw [hedram]
            omega
          · exact hnext 1 (by decide)
          · exact hnext 2 (by decide)
          · exact hnext 3 (by decide)
      case isFalse hbelow =>
        rw [BitVec.le_def, hsize] at hbelow
        obtain rfl := mem_singleton.1 h
        dsimp only
        rw [BitVec.toNat_udiv, BitVec.toNat_udiv, hsize, hfour]
        omega
  | gpioic =>
    unfold deviceCells at h
    simp only [mem_append] at h
    rcases h with ((h | h) | h) | h <;> exact gpioicDecode_lt h
  | i2s0 | i2s1 =>
    unfold deviceCells at h
    dsimp only at h
    split at h
    case h_1 => cases h
    case h_2 slot hslot =>
      obtain rfl := mem_singleton.1 h
      exact (findIdx?_eq_some_iff_getElem.1 hslot).1
  | dmac0 | dmac1 =>
    unfold deviceCells at h
    dsimp only at h
    split at h
    case isTrue hin =>
      obtain rfl := mem_singleton.1 h
      exact hin.2
    case isFalse => cases h
  | nor =>
    unfold deviceCells at h
    dsimp only at h
    split at h
    case isTrue hin =>
      obtain ⟨i, hi, rfl⟩ := mem_map.1 h
      have hlt := mem_range.1 hi
      dsimp only
      omega
    case isFalse => cases h
  | _ => cases h

theorem Alike.noteUnmapped (h : Alike m m') (addr : Word) : Alike m (noteUnmapped m' addr) := by
  unfold Soc.noteUnmapped
  dsimp only
  split
  · exact h
  split
  · exact ⟨h.ramBase, h.ramSize, h.ram, h.norSize, h.stubs⟩
  · exact h

theorem map_shape_set {stubs : List Stub} {s' : Stub} (h : stubs[index]? = some s)
    (hshape : s'.shape = s.shape) : (stubs.set index s').map Stub.shape = stubs.map Stub.shape := by
  obtain ⟨hindex, rfl⟩ := List.getElem?_eq_some_iff.1 h
  apply ext_getElem
  · rw [length_map, length_set, length_map]
  · intro i hi hi'
    rw [getElem_map, getElem_set, getElem_map]
    split
    case isTrue hsame =>
      subst hsame
      exact hshape
    case isFalse => rfl

theorem busRead_spec (hm : Laid m) (addr : Word) (hbytes : narrow bytes) :
    ∃ reply m', busRead m addr bytes = some (reply, m') ∧ Alike m m' := by
  have hle : bytes ≤ 4 := by
    unfold narrow at hbytes
    rw [decide_eq_true_iff] at hbytes
    omega
  unfold busRead
  rcases htarget : readTarget m addr bytes with _ | ⟨target, off⟩
  · refine ⟨_, _, rfl, Alike.noteUnmapped ?_ addr⟩
    exact ⟨rfl, rfl, rfl, rfl, rfl⟩
  · have hin := offset_le hm htarget
    cases target with
    | ram =>
      have hroom : off.toNat + bytes ≤ m.ram.length ∧ bytes ≤ 4 := ⟨hm.ram_length ▸ hin, hle⟩
      dsimp only
      unfold ramRead
      rw [if_pos hroom]
      exact ⟨_, _, rfl, rfl, rfl, rfl, rfl, rfl⟩
    | device d => exact ⟨_, _, rfl, rfl, rfl, rfl, rfl, rfl⟩
    | stub index =>
      obtain ⟨⟨s, hs, -⟩, rfl⟩ := readTarget_claims hm htarget
      have hextent : m.extent (.stub index) = (m.window (.stub index)).size.toNat := rfl
      have horigin : m.origin (.stub index) = (m.window (.stub index)).base := rfl
      rw [hextent, horigin, Machine.window_stub hs] at hin
      obtain ⟨v, hv⟩ := Option.isSome_iff_exists.1 (@stubReadLoop_isSome s (addr - s.base) bytes 0 0
        hin (hm.stub_regs s (mem_of_getElem? hs)))
      dsimp only
      rw [hs]
      dsimp only
      unfold stubRead
      rw [hv]
      exact ⟨_, _, rfl, rfl, rfl, rfl, rfl, map_shape_set hs rfl⟩

theorem busWrite_spec (hm : Laid m) (addr val : Word) (hbytes : narrow bytes) :
    ∃ reply m', busWrite m addr val bytes = some (reply, m') ∧ Alike m m' := by
  have hle : bytes ≤ 4 := by
    unfold narrow at hbytes
    rw [decide_eq_true_iff] at hbytes
    omega
  unfold busWrite
  rw [writeTarget_eq]
  rcases htarget : readTarget m addr bytes with _ | ⟨target, off⟩
  · refine ⟨_, _, rfl, Alike.noteUnmapped ?_ addr⟩
    exact ⟨rfl, rfl, rfl, rfl, rfl⟩
  · have hin := offset_le hm htarget
    cases target with
    | ram =>
      have hroom : off.toNat + bytes ≤ m.ram.length ∧ bytes ≤ 4 := ⟨hm.ram_length ▸ hin, hle⟩
      dsimp only
      unfold ramWrite
      rw [if_pos hroom]
      refine ⟨_, _, rfl, rfl, rfl, ?_, rfl, rfl⟩
      dsimp only
      rw [length_append, length_append, length_take, LittleEndian.length_put, length_drop]
      omega
    | device d => exact ⟨_, _, rfl, rfl, rfl, rfl, rfl, rfl⟩
    | stub index =>
      obtain ⟨⟨s, hs, -⟩, rfl⟩ := readTarget_claims hm htarget
      have hextent : m.extent (.stub index) = (m.window (.stub index)).size.toNat := rfl
      have horigin : m.origin (.stub index) = (m.window (.stub index)).base := rfl
      rw [hextent, horigin, Machine.window_stub hs] at hin
      obtain ⟨s', hs', hshape⟩ := @stubWriteLoop_isSome { s with writes := s.writes + 1 }
        (addr - s.base) val bytes 0 hin (hm.stub_regs s (mem_of_getElem? hs))
      dsimp only
      rw [hs]
      dsimp only
      unfold stubWrite
      rw [hs']
      exact ⟨_, _, rfl, rfl, rfl, rfl, rfl, map_shape_set hs hshape⟩

/-- The machines there are: one that was built, with stubs that were added and accesses made. -/
inductive Built : Machine → Prop
  | init {granted : Bool} {stubGranted : List Bool} {ramBase ramSize : Word} {m : Machine}
      (h : init granted stubGranted ramBase ramSize = some m) : Built m
  | addStub {m : Machine} (granted : Bool) (base size : Word) (h : Built m) :
      Built (addStub granted m base size).2
  | read {m m' : Machine} {addr : Word} {bytes : ℕ} {reply : Reply} (hbytes : narrow bytes)
      (h : Built m) (hread : busRead m addr bytes = some (reply, m')) : Built m'
  | write {m m' : Machine} {addr val : Word} {bytes : ℕ} {reply : Option (Device × Word)}
      (hbytes : narrow bytes) (h : Built m)
      (hwrite : busWrite m addr val bytes = some (reply, m')) : Built m'

theorem Built.laid (h : Built m) : Laid m := by
  induction h with
  | init h => exact init_laid h
  | addStub granted base size _ ih => exact addStub_laid ih granted base size
  | read hbytes _ hread ih =>
    obtain ⟨reply', m'', hread', halike⟩ := busRead_spec ih _ hbytes
    obtain ⟨-, rfl⟩ := Prod.mk.inj (Option.some.inj (hread.symm.trans hread'))
    exact ih.alike halike
  | write hbytes _ hwrite ih =>
    obtain ⟨reply', m'', hwrite', halike⟩ := busWrite_spec ih _ _ hbytes
    obtain ⟨-, rfl⟩ := Prod.mk.inj (Option.some.inj (hwrite.symm.trans hwrite'))
    exact ih.alike halike

/-- Every access has at most one target, which reads and writes agree on, offset included; one that
runs past the end of a window has none; and what is indexed, in RAM, in a stub or in the arrays of
a device, is there. -/
theorem bus_routing (h : Built m) (addr val : Word) (bytes : ℕ) :
    (∀ t t', Claims m addr bytes t → Claims m addr bytes t' → t = t') ∧
      (∀ t off, readTarget m addr bytes = some (t, off) ↔
        Claims m addr bytes t ∧ off = addr - m.origin t) ∧
      writeTarget m addr bytes = readTarget m addr bytes ∧
      (∀ t, (m.span t).Covers addr.toNat →
        (m.span t).base + (m.span t).size < addr.toNat + bytes → ∀ t', ¬Claims m addr bytes t') ∧
      (∀ t off, readTarget m addr bytes = some (t, off) → off.toNat + bytes ≤ m.extent t ∧
          ∀ d, t = .device d → ∀ cell ∈ deviceCells m d off bytes, cell.1 < cell.2) ∧
      (narrow bytes → (busRead m addr bytes).isSome ∧ (busWrite m addr val bytes).isSome) ∧
      ∀ index, hostRam m addr bytes = some index → index + bytes ≤ m.ram.length := by
  have hm := h.laid
  refine ⟨fun t t' ht ht' ↦ ht.unique hm ht', fun t off ↦ readTarget_iff hm, writeTarget_eq m addr
    bytes, ?_, ?_, ?_, ?_⟩
  · intro t hcovers hpast t' hclaims
    have hbytes : bytes ≠ 0 := by
      obtain ⟨-, hlt⟩ := hcovers
      omega
    exact hm.disjoint.not_holds hcovers hpast t' (hclaims.holds hbytes)
  · intro t off htarget
    exact ⟨offset_le hm htarget, fun d _ cell hcell ↦ deviceCells_lt hcell⟩
  · intro hbytes
    obtain ⟨reply, m', hread, -⟩ := busRead_spec hm addr hbytes
    obtain ⟨reply', m'', hwrite, -⟩ := busWrite_spec hm addr val hbytes
    rw [hread, hwrite]
    exact ⟨rfl, rfl⟩
  · intro index hindex
    unfold hostRam at hindex
    split at hindex
    · cases hindex
    case isFalse hin =>
      obtain rfl := Option.some.inj hindex
      rw [not_or, Bool.not_eq_true, Bool.not_eq_false'] at hin
      have hroom := hin.2
      unfold inRam at hroom
      rw [decide_eq_true_iff] at hroom
      rw [hm.ram_length]
      exact hroom.2

/-- A machine whose RAM is the end of the address space. -/
def topMachine : Machine :=
  (init true [true] 0xfffffff0 0x10).get (by decide +kernel)

theorem topMachine_built : Built topMachine :=
  .init (Option.some_get (by decide +kernel)).symm

theorem bus_routing_top : readTarget topMachine 0xfffffffc 4 = writeTarget topMachine 0xfffffffc 4 ∧
      (busRead topMachine 0xfffffffc 4).isSome ∧ ¬Claims topMachine 0xfffffffe 4 .ram := by
  obtain ⟨-, -, hwrite, -, -, haccess, -⟩ := bus_routing topMachine_built 0xfffffffc 0 4
  obtain ⟨-, -, -, hpast, -⟩ := bus_routing topMachine_built 0xfffffffe 0 4
  exact ⟨hwrite.symm, (haccess (by decide)).1,
    hpast .ram (by unfold Window.Covers; decide +kernel) (by decide +kernel) .ram⟩

end S5LBox.Soc
