import S5LBox.Library.Bisect
import S5LBox.Word

/-!
# The load map of the kernel extensions

`prelink_load` files one extension for each dictionary of the prelink list, sorts the table and lets
extents that overlap through with a warning; `ksyms_kext_at` looks an address up in it.
-/

namespace S5LBox.Firmware

def ksymsMaxKexts : ℕ := 256

inductive KsymsStatus
  | plist | tooMany
deriving DecidableEq

/-- What the scan has found in a dictionary when it ends. -/
structure KextDict where
  bundle : List Octet
  executable : Option Word
  executableSize : Option Word
  kmodInfo : Word

structure Kext where
  bundle : List Octet
  addr : Word
  size : Word
  kmodInfo : Word
  hasExec : Bool
deriving DecidableEq, Inhabited

/-- The end of a dictionary in `prelink_load`: check it and file it. -/
def fileKext (lo hi : Word) (filed : List Kext) (d : KextDict) : Except KsymsStatus (List Kext) :=
  if d.bundle = [] then .error .plist
  else if d.executable.isSome ≠ d.executableSize.isSome then .error .plist
  else
    let addr := d.executable.getD 0
    let size := d.executableSize.getD 0
    let hasExec := d.executable.isSome && d.executableSize.isSome && size ≠ 0
    if hasExec ∧ (addr < lo ∨ hi.toNat < addr.toNat + size.toNat) then .error .plist
    else if ksymsMaxKexts ≤ filed.length then .error .tooMany
    else .ok (filed ++ [⟨d.bundle, addr, size, d.kmodInfo, hasExec⟩])

/-- `kext_cmp`: those with code first, by load address. -/
def kextCmp (x y : Kext) : ℤ :=
  if x.hasExec ≠ y.hasExec then (if x.hasExec then -1 else 1)
  else if x.addr ≠ y.addr then (if x.addr < y.addr then -1 else 1)
  else 0

def nkextExec (kexts : List Kext) : ℕ := kexts.countP (·.hasExec)

/-- A table `prelink_load` may end with; the sort is free in the order of extensions that compare
equal. -/
def PrelinkLoaded (lo hi : Word) (dicts : List KextDict) (kexts : List Kext) : Prop :=
  ∃ filed, dicts.foldlM (fileKext lo hi) [] = .ok filed ∧ nkextExec filed ≠ 0 ∧
    kexts.Perm filed ∧ kexts.Pairwise fun x y ↦ kextCmp x y ≤ 0

/-- `ksyms_kext_at`, as the index of the extension. -/
def ksymsKextAt (kexts : List Kext) (addr : Word) : Option ℕ :=
  let addr := addr &&& ~~~1
  if nkextExec kexts = 0 then none
  else
    let lo := Bisect.search (fun i ↦ (kexts.getD i default).addr ≤ addr) 0 (nkextExec kexts)
    if lo = 0 then none
    else
      let k := kexts.getD (lo - 1) default
      if addr.toNat < k.addr.toNat + k.size.toNat then some (lo - 1) else none

def Kext.contains (k : Kext) (addr : Word) : Bool :=
  k.addr ≤ addr && addr.toNat < k.addr.toNat + k.size.toNat

/-- The address, whose Thumb bit does not count, is attributed to the first extension around it. -/
def Attributed (kexts : List Kext) (addr : Word) : Prop :=
  ksymsKextAt kexts addr = kexts.findIdx? (·.contains (addr &&& ~~~1))

/-- No extension around the address has one behind it that starts at the address or before. -/
def LastStarted (kexts : List Kext) (addr : Word) : Prop :=
  ∀ i j (hij : i < j) (hj : j < kexts.length), (kexts.get ⟨i, hij.trans hj⟩).contains addr = true →
    (kexts.get ⟨j, hj⟩).hasExec = true → addr < (kexts.get ⟨j, hj⟩).addr

/-- What the loader promises of a table. -/
structure Sorted (kexts : List Kext) : Prop where
  code : ∀ k ∈ kexts, k.hasExec = false → k.size = 0
  ordered : kexts.Pairwise fun x y ↦ kextCmp x y ≤ 0

theorem code_of_fileKext {lo hi : Word} {filed after : List Kext} {d : KextDict}
    (h : ∀ k ∈ filed, k.hasExec = false → k.size = 0)
    (hfile : fileKext lo hi filed d = .ok after) : ∀ k ∈ after, k.hasExec = false → k.size = 0 := by
  unfold fileKext at hfile
  dsimp only at hfile
  split_ifs at hfile with hbundle hboth hrange hmax
  obtain rfl := Except.ok.inj hfile
  intro k hk hexec
  rcases List.mem_append.1 hk with hk | hk
  · exact h k hk hexec
  · obtain rfl := List.mem_singleton.1 hk
    dsimp only at hexec ⊢
    cases hsize : d.executableSize with
    | none => rfl
    | some size =>
      rw [hsize] at hexec hboth
      by_contra hne
      simp_all

theorem code_of_foldlM {lo hi : Word} {dicts : List KextDict} {before filed : List Kext}
    (h : ∀ k ∈ before, k.hasExec = false → k.size = 0)
    (hfold : dicts.foldlM (fileKext lo hi) before = .ok filed) :
    ∀ k ∈ filed, k.hasExec = false → k.size = 0 := by
  induction dicts generalizing before with
  | nil =>
    obtain rfl := Except.ok.inj hfold
    exact h
  | cons d dicts ih =>
    rw [List.foldlM_cons] at hfold
    cases hfile : fileKext lo hi before d with
    | error =>
      rw [hfile] at hfold
      cases hfold
    | ok after =>
      rw [hfile] at hfold
      exact ih (code_of_fileKext h hfile) hfold

theorem sorted_of_prelinkLoaded {lo hi : Word} {dicts : List KextDict} {kexts : List Kext}
    (h : PrelinkLoaded lo hi dicts kexts) : Sorted kexts := by
  obtain ⟨filed, hfiled, -, hperm, hordered⟩ := h
  have hcode := code_of_foldlM (fun k hk ↦ absurd hk List.not_mem_nil) hfiled
  exact ⟨fun k hk ↦ hcode k (hperm.mem_iff.1 hk), hordered⟩

variable {kexts : List Kext} {addr : Word}

theorem exec_iff (h : kexts.Pairwise fun x y ↦ kextCmp x y ≤ 0) {i : ℕ} (hi : i < kexts.length) :
    (kexts.get ⟨i, hi⟩).hasExec = true ↔ i < nkextExec kexts := by
  induction kexts generalizing i with
  | nil => exact absurd hi (Nat.not_lt_zero i)
  | cons k kexts ih =>
    obtain ⟨hfirst, hrest⟩ := List.pairwise_cons.1 h
    cases hk : k.hasExec with
    | true =>
      have hcount : nkextExec (k :: kexts) = nkextExec kexts + 1 := List.countP_cons_of_pos hk
      rw [hcount]
      cases i with
      | zero => exact ⟨fun _ ↦ Nat.succ_pos _, fun _ ↦ hk⟩
      | succ i => exact (ih hrest (Nat.lt_of_succ_lt_succ hi)).trans Nat.succ_lt_succ_iff.symm
    | false =>
      -- what follows an extension without code has none either
      have hnone : ∀ y ∈ kexts, y.hasExec = false := by
        intro y hy
        by_contra hne
        have hcmp := hfirst y hy
        rw [kextCmp, hk, eq_true_of_ne_false hne] at hcmp
        exact absurd hcmp (by simp)
      have hcount : nkextExec (k :: kexts) = 0 := by
        refine List.countP_eq_zero.2 fun y hy ↦ ?_
        rcases List.mem_cons.1 hy with rfl | hy
        · rw [hk]
          exact Bool.false_ne_true
        · rw [hnone y hy]
          exact Bool.false_ne_true
      rw [hcount]
      refine ⟨fun hexec ↦ ?_, fun hlt ↦ absurd hlt (Nat.not_lt_zero i)⟩
      have hmem := List.get_mem (k :: kexts) ⟨i, hi⟩
      rcases List.mem_cons.1 hmem with heq | hmem
      · rw [heq, hk] at hexec
        cases hexec
      · rw [hnone _ hmem] at hexec
        cases hexec

theorem getD_of_lt {i : ℕ} (hi : i < kexts.length) : kexts.getD i default = kexts.get ⟨i, hi⟩ := by
  rw [List.getD_eq_getElem?_getD, List.getElem?_eq_getElem hi, Option.getD_some,
    List.get_eq_getElem]

theorem addr_le (h : kexts.Pairwise fun x y ↦ kextCmp x y ≤ 0) {i j : ℕ} (hij : i ≤ j)
    (hj : j < nkextExec kexts) : (kexts.getD i default).addr ≤ (kexts.getD j default).addr := by
  have hlength : nkextExec kexts ≤ kexts.length := List.countP_le_length
  rcases Nat.lt_or_eq_of_le hij with hlt | rfl
  · have hi' : i < kexts.length := by omega
    have hj' : j < kexts.length := by omega
    have hcmp := List.pairwise_iff_get.1 h ⟨i, hi'⟩ ⟨j, hj'⟩ hlt
    rw [getD_of_lt hi', getD_of_lt hj']
    rw [kextCmp, (exec_iff h hi').2 (by omega), (exec_iff h hj').2 hj, if_neg (by simp)] at hcmp
    split_ifs at hcmp with hne hless
    · exact BitVec.le_of_lt hless
    · exact absurd hcmp (by decide)
    · rw [not_not.1 hne]
      exact BitVec.le_refl _
  · exact BitVec.le_refl _

theorem contains_iff (k : Kext) (addr : Word) : k.contains addr = true ↔
    k.addr ≤ addr ∧ addr.toNat < k.addr.toNat + k.size.toNat := by
  rw [Kext.contains, Bool.and_eq_true, decide_eq_true_iff, decide_eq_true_iff]

theorem exec_of_contains (h : Sorted kexts) {k : Kext} (hk : k ∈ kexts)
    (hcontains : k.contains addr = true) : k.hasExec = true := by
  by_contra hne
  obtain ⟨hle, hlt⟩ := (contains_iff k addr).1 hcontains
  have hle' : k.addr.toNat ≤ addr.toNat := hle
  rw [h.code k hk (eq_false_of_ne_true hne)] at hlt
  exact absurd hlt (Nat.not_lt.2 hle')

theorem search_kexts (h : Sorted kexts) (addr : Word) : ∃ n ≤ nkextExec kexts,
      Bisect.search (fun i ↦ (kexts.getD i default).addr ≤ addr) 0 (nkextExec kexts) = n ∧
        ∀ i < nkextExec kexts, (kexts.getD i default).addr ≤ addr ↔ i < n := by
  obtain ⟨-, hhigh, hbefore, hafter⟩ := @Bisect.search_spec
    (fun i ↦ (kexts.getD i default).addr ≤ addr) 0 (nkextExec kexts) (Nat.zero_le _)
    fun i j _ hij hj htest ↦ decide_eq_true
      (BitVec.le_trans (addr_le h.ordered hij.le hj) (of_decide_eq_true htest))
  refine ⟨_, hhigh, rfl, fun i hi ↦ ⟨fun hle ↦ ?_, fun hlt ↦ ?_⟩⟩
  · by_contra hnot
    exact of_decide_eq_false (hafter i (Nat.le_of_not_lt hnot) hi) hle
  · exact of_decide_eq_true (hbefore i (Nat.zero_le i) hlt)

theorem ksymsKextAt_cases (h : Sorted kexts) (addr : Word) : ∃ n ≤ nkextExec kexts,
      (∀ i < nkextExec kexts, (kexts.getD i default).addr ≤ addr &&& ~~~1 ↔ i < n) ∧
        ksymsKextAt kexts addr =
          if n ≠ 0 ∧ (kexts.getD (n - 1) default).contains (addr &&& ~~~1) = true then some (n - 1)
          else none := by
  obtain ⟨n, hn, hsearch, hstarts⟩ := search_kexts h (addr &&& ~~~1)
  refine ⟨n, hn, hstarts, ?_⟩
  unfold ksymsKextAt
  dsimp only
  rw [hsearch]
  by_cases hzero : n = 0
  · rw [if_pos hzero, ite_self, if_neg fun hboth ↦ hboth.1 hzero]
  · have hle : (kexts.getD (n - 1) default).addr ≤ addr &&& ~~~1 :=
      (hstarts (n - 1) (by omega)).2 (by omega)
    rw [if_neg (by omega), if_neg hzero]
    refine if_congr ?_ rfl rfl
    rw [contains_iff]
    exact ⟨fun hlt ↦ ⟨hzero, hle, hlt⟩, fun hboth ↦ hboth.2.2⟩

theorem attributed_iff_of_sorted (h : Sorted kexts) (addr : Word) :
    Attributed kexts addr ↔ LastStarted kexts (addr &&& ~~~1) := by
  obtain ⟨n, hn, hstarts, hat⟩ := ksymsKextAt_cases h addr
  unfold Attributed LastStarted
  rw [hat]
  generalize addr &&& ~~~1 = a at *
  have hlength : nkextExec kexts ≤ kexts.length := List.countP_le_length
  -- what is around the address is among those that start at it or before
  have hbefore {i : ℕ} (hi : i < kexts.length)
      (hcontains : (kexts.get ⟨i, hi⟩).contains a = true) : i < n := by
    have hexec := (exec_iff h.ordered hi).1 (exec_of_contains h (List.get_mem _ _) hcontains)
    rw [← hstarts i hexec, getD_of_lt hi]
    exact ((contains_iff _ _).1 hcontains).1
  constructor
  · intro hfound i j hij hj hcontains hexec
    by_contra hle
    have hjn : j < n := by
      rw [← hstarts j ((exec_iff h.ordered hj).1 hexec), getD_of_lt hj]
      exact BitVec.not_lt.1 hle
    -- then the first one around the address is not the last that starts there or before
    cases hfirst : kexts.findIdx? (·.contains a) with
    | none =>
      have hnone := List.findIdx?_eq_none_iff.1 hfirst _ (List.get_mem kexts ⟨i, hij.trans hj⟩)
      rw [hnone] at hcontains
      cases hcontains
    | some first =>
      obtain ⟨hlt, _, hleast⟩ := List.findIdx?_eq_some_iff_getElem.1 hfirst
      have hfirst' : first ≤ i := by
        by_contra hgt
        exact hleast i (Nat.lt_of_not_le hgt) hcontains
      rw [hfirst] at hfound
      split_ifs at hfound
      obtain rfl := Option.some.inj hfound
      omega
  · intro hlast
    have hunique {i : ℕ} (hi : i < kexts.length)
        (hcontains : (kexts.get ⟨i, hi⟩).contains a = true) : i = n - 1 := by
      have hin := hbefore hi hcontains
      by_contra hne
      have hj : n - 1 < kexts.length := by omega
      have hlt := hlast i (n - 1) (by omega) hj hcontains ((exec_iff h.ordered hj).2 (by omega))
      have hle := (hstarts (n - 1) (by omega)).2 (by omega)
      rw [getD_of_lt hj] at hle
      exact absurd hlt (BitVec.not_lt.2 hle)
    by_cases hcontains : n ≠ 0 ∧ (kexts.getD (n - 1) default).contains a = true
    · have hj : n - 1 < kexts.length := by omega
      have hcontains' := hcontains.2
      rw [getD_of_lt hj] at hcontains'
      rw [if_pos hcontains]
      refine (List.findIdx?_eq_some_iff_getElem.2 ⟨hj, hcontains', fun i hi hother ↦ ?_⟩).symm
      exact absurd (hunique (hi.trans hj) hother) (by omega)
    · rw [if_neg hcontains]
      refine (List.findIdx?_eq_none_iff.2 fun k hk ↦ ?_).symm
      by_contra hk'
      obtain ⟨i, hi, rfl⟩ := List.mem_iff_getElem.1 hk
      have hcontains' : (kexts.get ⟨i, hi⟩).contains a = true := eq_true_of_ne_false hk'
      have hin := hbefore hi hcontains'
      have heq := hunique hi hcontains'
      refine hcontains ⟨by omega, ?_⟩
      rw [← heq, getD_of_lt hi]
      exact hcontains'

/-- In every table the loader accepts, an address is attributed to the first extension around it if
and only if no extension around it has one behind it that starts no later than the address. -/
theorem ksymsKextAt_attributed {lo hi : Word} {dicts : List KextDict} {kexts : List Kext}
    (h : PrelinkLoaded lo hi dicts kexts) (addr : Word) :
    Attributed kexts addr ↔ LastStarted kexts (addr &&& ~~~1) :=
  attributed_iff_of_sorted (sorted_of_prelinkLoaded h) addr

def nestedDicts : List KextDict :=
  [⟨[0x61], some 0xc0100000, some 0x11000, 0⟩, ⟨[0x62], some 0xc0101000, some 0x1000, 0⟩]

def nestedKexts : List Kext :=
  [⟨[0x61], 0xc0100000, 0x11000, 0, true⟩, ⟨[0x62], 0xc0101000, 0x1000, 0, true⟩]

theorem prelinkLoaded_nested : PrelinkLoaded 0xc0100000 0xc0200000 nestedDicts nestedKexts :=
  ⟨nestedKexts, rfl, by decide, List.Perm.refl _, by decide⟩

theorem ksymsKextAt_attributed_nested : Attributed nestedKexts 0xc0100801 := by
  refine (ksymsKextAt_attributed prelinkLoaded_nested _).2 fun i j hij hj _ _ ↦ ?_
  have hlength : j < 2 := hj
  obtain rfl : j = 1 := by omega
  show (0xc0100800 : Word) < 0xc0101000
  decide

/-- Behind the inner extension, the outer one is around the address and is not found. -/
theorem ksymsKextAt_nested : PrelinkLoaded 0xc0100000 0xc0200000 nestedDicts nestedKexts ∧
      ksymsKextAt nestedKexts 0xc0103000 = none ∧
        nestedKexts.findIdx? (·.contains 0xc0103000) = some 0 := by
  have hcount : nkextExec nestedKexts = 2 := rfl
  have hsearch :
      Bisect.search (fun i ↦ (nestedKexts.getD i default).addr ≤ (0xc0103000 : Word)) 0 2 = 2 := by
    rw [Bisect.search, if_pos (by decide)]
    dsimp only
    rw [if_pos (by decide), Bisect.search_of_le (by decide)]
  refine ⟨prelinkLoaded_nested, ?_, by decide⟩
  unfold ksymsKextAt
  dsimp only
  rw [hcount, show (0xc0103000 : Word) &&& ~~~1 = 0xc0103000 from rfl, hsearch]
  decide

end S5LBox.Firmware
