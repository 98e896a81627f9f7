import S5LBox.Library.Trace

/-!
# Ledgers of handles

A log of the calls that open, use and close handles, beside a table of slots that hold them. The
log is balanced when every handle was opened as often as it was closed and is held now, and was
only used or closed while some opening of it was outstanding. One value may be opened again while
it is held; each opening counts. A log that never does so has each handle in one slot at most.
-/

namespace Ledger

variable {Handle : Type} [DecidableEq Handle]

inductive Call (Handle : Type)
  | opened (handle : Handle)
  | used (handle : Handle)
  | closed (handle : Handle)
deriving DecidableEq

def opens (log : List (Call Handle)) (handle : Handle) : ℕ := log.count (.opened handle)

def closes (log : List (Call Handle)) (handle : Handle) : ℕ := log.count (.closed handle)

/-- A handle is used and closed only while an opening of it is outstanding. -/
def Outstanding (before : List (Call Handle)) : Call Handle → Prop
  | .opened _ => True
  | .used handle => closes before handle < opens before handle
  | .closed handle => closes before handle < opens before handle

/-- No handle is opened while it is outstanding. -/
def OpensFresh (before : List (Call Handle)) : Call Handle → Prop
  | .opened handle => opens before handle = closes before handle
  | _ => True

/-- What the log says is what is held. -/
structure Balanced (log : List (Call Handle)) (held : Handle → ℕ) : Prop where
  balance : ∀ handle, opens log handle = closes log handle + held handle
  outstanding : Trace.Lawful Outstanding log

theorem opens_append (log : List (Call Handle)) (call : Call Handle) (handle : Handle) :
    opens (log ++ [call]) handle = opens log handle + if call = .opened handle then 1 else 0 := by
  unfold opens
  rw [List.count_append, List.count_singleton]
  simp only [beq_iff_eq]

theorem closes_append (log : List (Call Handle)) (call : Call Handle) (handle : Handle) :
    closes (log ++ [call]) handle = closes log handle + if call = .closed handle then 1 else 0 := by
  unfold closes
  rw [List.count_append, List.count_singleton]
  simp only [beq_iff_eq]

namespace Balanced

variable {log : List (Call Handle)} {held held' : Handle → ℕ} {handle : Handle}

theorem nil : Balanced ([] : List (Call Handle)) (fun _ ↦ 0) := ⟨fun _ ↦ rfl, Trace.lawful_nil⟩

theorem lt_opens (h : Balanced log held) (hheld : 0 < held handle) :
    closes log handle < opens log handle := by
  rw [h.balance]
  omega

theorem use (h : Balanced log held) (hheld : 0 < held handle) :
    Balanced (log ++ [.used handle]) held := by
  refine ⟨?_, Trace.lawful_append.2 ⟨h.outstanding, h.lt_opens hheld⟩⟩
  intro other
  rw [opens_append, closes_append, if_neg (by simp), if_neg (by simp)]
  exact h.balance other

theorem opened (h : Balanced log held)
    (hmore : ∀ other, held' other = held other + if handle = other then 1 else 0) :
    Balanced (log ++ [.opened handle]) held' := by
  refine ⟨?_, Trace.lawful_append.2 ⟨h.outstanding, trivial⟩⟩
  intro other
  rw [opens_append, closes_append, h.balance, hmore]
  simp only [Call.opened.injEq, reduceCtorEq, if_false]
  omega

theorem close (h : Balanced log held)
    (hless : ∀ other, held other = held' other + if handle = other then 1 else 0) :
    Balanced (log ++ [.closed handle]) held' := by
  have hheld : 0 < held handle := by
    rw [hless, if_pos rfl]
    omega
  refine ⟨?_, Trace.lawful_append.2 ⟨h.outstanding, h.lt_opens hheld⟩⟩
  intro other
  rw [opens_append, closes_append, h.balance, hless]
  simp only [Call.closed.injEq, reduceCtorEq, if_false]
  omega

theorem opens_le (h : Trace.Lawful OpensFresh log) (handle : Handle) :
    opens log handle ≤ closes log handle + 1 := by
  induction log using List.reverseRecOn with
  | nil => exact Nat.zero_le _
  | append_singleton log call ih =>
    obtain ⟨hlog, hcall⟩ := Trace.lawful_append.1 h
    have hbefore := ih hlog
    rw [opens_append, closes_append]
    split
    case isTrue hopened =>
      subst hopened
      have hfresh : opens log handle = closes log handle := hcall
      omega
    case isFalse => omega

theorem held_le_one (h : Balanced log held) (hfresh : Trace.Lawful OpensFresh log)
    (handle : Handle) : held handle ≤ 1 := by
  have hle := opens_le hfresh handle
  rw [h.balance] at hle
  omega

end Balanced

/-- Whether a slot holds a handle, as a number. -/
def single (slot : Option Handle) (handle : Handle) : ℕ := if slot = some handle then 1 else 0

variable {ι : Type} [Fintype ι]

/-- How many slots hold a handle. -/
def holders (slot : ι → Option Handle) (handle : Handle) : ℕ := ∑ i, single (slot i) handle

theorem holders_none (handle : Handle) : holders (fun _ : ι ↦ none) handle = 0 :=
  Finset.sum_eq_zero fun _ _ ↦ if_neg (by simp)

variable [DecidableEq ι]

/-- How many slots other than `i` hold a handle. -/
def others (slot : ι → Option Handle) (i : ι) (handle : Handle) : ℕ :=
  ∑ j ∈ Finset.univ.erase i, single (slot j) handle

theorem holders_eq (slot : ι → Option Handle) (i : ι) (handle : Handle) :
    holders slot handle = others slot i handle + single (slot i) handle :=
  (Finset.sum_erase_add _ _ (Finset.mem_univ i)).symm

theorem others_congr {slot slot' : ι → Option Handle} {i : ι}
    (h : ∀ j, j ≠ i → slot' j = slot j) : others slot' i = others slot i := by
  funext handle
  refine Finset.sum_congr rfl ?_
  intro j hj
  rw [h j (Finset.ne_of_mem_erase hj)]

theorem eq_of_holders {slot : ι → Option Handle} {i j : ι} {handle : Handle}
    (hle : holders slot handle ≤ 1) (hi : slot i = some handle) (hj : slot j = some handle) :
    i = j := by
  by_contra hne
  have hother : 1 ≤ others slot i handle := by
    have hsingle : single (slot j) handle = 1 := if_pos hj
    have hmem : j ∈ Finset.univ.erase i := Finset.mem_erase.2 ⟨Ne.symm hne, Finset.mem_univ j⟩
    rw [← hsingle]
    exact Finset.single_le_sum (f := fun k ↦ single (slot k) handle) (fun _ _ ↦ Nat.zero_le _) hmem
  rw [holders_eq slot i, single, if_pos hi] at hle
  omega

end Ledger
