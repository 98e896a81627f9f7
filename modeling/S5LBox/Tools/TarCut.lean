import S5LBox.Tools.TarArchive

/-!
# Archives that were cut

An archive of members of any kind, cut somewhere before its end: which members lie wholly before
the cut, what the reader makes of them, and when it takes them for the whole payload. Whatever the
octets are, what is planned lies below the prefix and comes out of the archive.
-/

namespace S5LBox.Tools

/-- A member as it is in an archive: a header that can be read, and a body in whole blocks. -/
structure TarRecord where
  header : List Octet
  body : List Octet
  mode : ℕ
  size : ℕ
  block : header.length = tarBlock
  sum : checksumOk header = true
  modeField : octalField (field header 100 8) = some mode
  sizeField : octalField (field header 124 12) = some size
  filled : body.length = (size + (tarBlock - 1)) / tarBlock * tarBlock

def TarRecord.octets (r : TarRecord) : List Octet := r.header ++ r.body

def TarRecord.member (r : TarRecord) : RawMember where
  name := memberName r.header
  mode := r.mode
  size := r.size
  type := octetAt r.header 156
  link := cString (field r.header 157 100)
  content := r.body.take r.size

def recordOctets (rs : List TarRecord) : List Octet := rs.flatMap TarRecord.octets

/-- The records, the blocks of zeros that end an archive, and anything. -/
def tarImage (rs : List TarRecord) (trailer : List Octet) : List Octet :=
  recordOctets rs ++ (List.replicate (2 * tarBlock) 0 ++ trailer)

/-- The members that lie wholly before a cut, and how much of the next one is there. -/
def wholeBefore : List TarRecord → ℕ → List RawMember × ℕ
  | [], n => ([], n)
  | r :: rs, n =>
    if r.octets.length ≤ n then
      let (ms, remains) := wholeBefore rs (n - r.octets.length)
      (r.member :: ms, remains)
    else ([], n)

namespace RawMember

variable (m : RawMember)

/-- A member that is not passed over: its path goes into the arena. -/
def Placed : Prop :=
  m.type ∉ skippedTypes ∧ stripSlashes m.name ≠ [] ∧ stripSlashes m.name ≠ [0x2e]

/-- A member of a kind that makes an entry. -/
def Made : Prop := m.Placed ∧ m.type ∈ [(0x35 : Octet), 0x32, 0x31, 0x30, 0]

def IsFile : Prop := m.Placed ∧ m.type ∈ [(0x31 : Octet), 0x30, 0]

instance : Decidable m.Placed := inferInstanceAs (Decidable (_ ∧ _))

instance : Decidable m.Made := inferInstanceAs (Decidable (_ ∧ _))

instance : Decidable m.IsFile := inferInstanceAs (Decidable (_ ∧ _))

/-- How much of the arena a member takes. -/
def cost (root : List Octet) (m : RawMember) : ℕ :=
  if m.Placed then
    (joined root (stripSlashes m.name)).length + 1 + if m.type = 0x32 then m.link.length + 2 else 0
  else 0

end RawMember

def arenaTaken (root : List Octet) (before : List RawMember) : ℕ :=
  (before.map (RawMember.cost root)).sum

/-- The paths of the regular files among some members. -/
def filePaths (root : List Octet) (before : List RawMember) : List (List Octet) :=
  (before.filter fun m ↦ m.IsFile).map fun m ↦ joined root (stripSlashes m.name)

/-- A member that cannot be provisioned after those before it: a long name, an unsafe path, one
entry too many, no room for its names, a bad link, or a file that is too large. -/
def Refused (cap : ℕ) (root : List Octet) (before : List RawMember) (m : RawMember) : Prop :=
  m.type ∈ [(0x4c : Octet), 0x4b] ∨ m.Placed ∧
    (traverses (stripSlashes m.name) = true ∨ printablePath (stripSlashes m.name) = false ∨
      maxEntries ≤ before.countP (fun m ↦ m.Made) ∨
      cap < arenaTaken root before + (root.length + (stripSlashes m.name).length + 2) ∨
      m.type = 0x32 ∧ (m.link = [] ∨ printablePath m.link = false ∨
        cap < arenaTaken root before + ((joined root (stripSlashes m.name)).length + 1) +
          (m.link.length + 2)) ∨
      m.type = 0x31 ∧ (∀ path ∈ filePaths root before, ¬m.link <:+ path) ∨
      m.type ∈ [(0x30 : Octet), 0] ∧ maxEntryBytes < m.size)

/-- A plan that some members were read into. -/
structure Follows (root : List Octet) (before : List RawMember) (plan : TarPlan) : Prop where
  count : plan.entries.length = before.countP fun m ↦ m.Made
  taken : plan.namesUsed = arenaTaken root before
  files : (plan.entries.filter fun e ↦ e.kind = .file).map WorkEntry.path = filePaths root before

variable {cap off : ℕ} {root : List Octet} {before : List RawMember} {m : RawMember}
  {plan : TarPlan}

theorem arenaTaken_concat :
    arenaTaken root (before ++ [m]) = arenaTaken root before + m.cost root := by
  rw [arenaTaken, List.map_append, List.sum_append, List.map_singleton, List.sum_singleton]
  rfl

theorem made_placed (h : m.Made) : m.Placed := h.1

theorem isFile_made (h : m.IsFile) : m.Made :=
  ⟨h.1, List.mem_cons_of_mem _ (List.mem_cons_of_mem _ h.2)⟩

/-- A member that makes no entry leaves the counts and the paths alone. -/
theorem Follows.of_not_made (h : Follows root before plan) (hmade : ¬m.Made) {used : ℕ}
    (hused : used = arenaTaken root before + m.cost root) :
    Follows root (before ++ [m]) { plan with namesUsed := used } where
  count := by
    rw [List.countP_append, List.countP_cons_of_neg (by simpa using hmade), List.countP_nil,
      h.count, Nat.add_zero]
  taken := by rw [arenaTaken_concat, hused]
  files := by
    rw [filePaths, List.filter_append,
      List.filter_cons_of_neg (by simpa using mt isFile_made hmade), List.filter_nil,
      List.append_nil, ← filePaths, ← h.files]

theorem Follows.of_made (h : Follows root before plan) (hmade : m.Made) {kind : EntryKind}
    {content : List Octet} {perm used : ℕ} (hkind : kind = .file ↔ m.IsFile)
    (hused : used = arenaTaken root before + m.cost root) : Follows root (before ++ [m])
      ⟨plan.entries ++ [⟨kind, joined root (stripSlashes m.name), content, perm⟩], used⟩ where
  count := by
    rw [List.countP_append, List.countP_cons_of_pos (by simpa using hmade), List.countP_nil,
      List.length_append, h.count, List.length_singleton]
  taken := by rw [arenaTaken_concat, hused]
  files := by
    rw [filePaths, List.filter_append, List.filter_append, List.map_append, List.map_append,
      ← filePaths, ← h.files]
    by_cases hfile : m.IsFile
    · rw [List.filter_cons_of_pos (by simpa using hkind.2 hfile),
        List.filter_cons_of_pos (by simpa using hfile)]
      rfl
    · rw [List.filter_cons_of_neg (by simpa using mt hkind.1 hfile),
        List.filter_cons_of_neg (by simpa using hfile)]
      rfl

theorem arenaPut_some {used : ℕ} {name : List Octet}
    (h : ¬cap < used + (root.length + name.length + 2)) :
    arenaPut cap used root name = some (used + ((joined root name).length + 1)) := by
  rw [arenaPut, if_neg h, Nat.add_assoc]

theorem linkSource_eq_none (h : Follows root before plan) {link : List Octet} :
    linkSource plan.entries link = none ↔ ∀ path ∈ filePaths root before, ¬link <:+ path := by
  rw [linkSource, List.find?_eq_none, ← h.files]
  constructor
  · intro hnone path hmem hsuffix
    obtain ⟨e, he, rfl⟩ := List.mem_map.1 hmem
    obtain ⟨hentry, hkind⟩ := List.mem_filter.1 he
    exact hnone e hentry (by
      rw [List.isSuffixOf_iff_suffix.2 hsuffix, Bool.true_and]
      exact hkind)
  · intro hall e he hfound
    obtain ⟨hsuffix, hkind⟩ := Bool.and_eq_true_iff.1 hfound
    exact hall e.path (List.mem_map.2 ⟨e, List.mem_filter.2 ⟨he, hkind⟩, rfl⟩)
      (List.isSuffixOf_iff_suffix.1 hsuffix)

theorem not_refused (hlong : m.type ∉ [(0x4c : Octet), 0x4b])
    (hsafe : traverses (stripSlashes m.name) = false)
    (hprintable : printablePath (stripSlashes m.name) = true)
    (hcount : ¬maxEntries ≤ before.countP fun m ↦ m.Made)
    (hroom : ¬cap < arenaTaken root before + (root.length + (stripSlashes m.name).length + 2))
    (hlink : ¬(m.type = 0x32 ∧ (m.link = [] ∨ printablePath m.link = false ∨
      cap < arenaTaken root before + ((joined root (stripSlashes m.name)).length + 1) +
        (m.link.length + 2))))
    (hhard : ¬(m.type = 0x31 ∧ ∀ path ∈ filePaths root before, ¬m.link <:+ path))
    (hsize : ¬(m.type ∈ [(0x30 : Octet), 0] ∧ maxEntryBytes < m.size)) :
    ¬Refused cap root before m := by
  rintro (hr | ⟨-, hr | hr | hr | hr | hr | hr | hr⟩)
  · exact hlong hr
  · exact Bool.false_ne_true (hsafe.symm.trans hr)
  · exact Bool.false_ne_true (hr.symm.trans hprintable)
  · exact hcount hr
  · exact hroom hr
  · exact hlink hr
  · exact hhard hr
  · exact hsize hr

theorem addMember_cases (h : Follows root before plan) :
    (∃ e, addMember cap root plan m = .error e ∧ Refused cap root before m) ∨
      ∃ plan', addMember cap root plan m = .ok plan' ∧ ¬Refused cap root before m ∧
        Follows root (before ++ [m]) plan' := by
  unfold addMember
  by_cases hlong : m.type = 0x4c ∨ m.type = 0x4b
  · rw [if_pos hlong]
    exact .inl ⟨_, rfl, .inl (by simpa using hlong)⟩
  have hlong' : m.type ∉ [(0x4c : Octet), 0x4b] := by simpa using hlong
  rw [if_neg hlong]
  by_cases hskip : m.type ∈ skippedTypes
  · rw [if_pos hskip]
    have hplaced : ¬m.Placed := fun hp ↦ hp.1 hskip
    refine .inr ⟨plan, rfl, fun hr ↦ hr.elim hlong' fun hr ↦ hplaced hr.1, ?_⟩
    exact h.of_not_made (mt made_placed hplaced) (by
      rw [RawMember.cost, if_neg hplaced, h.taken, Nat.add_zero])
  rw [if_neg hskip]
  dsimp only
  by_cases hname : stripSlashes m.name = [] ∨ stripSlashes m.name = [0x2e]
  · rw [if_pos hname]
    have hplaced : ¬m.Placed := fun hp ↦ hname.elim hp.2.1 hp.2.2
    refine .inr ⟨plan, rfl, fun hr ↦ hr.elim hlong' fun hr ↦ hplaced hr.1, ?_⟩
    exact h.of_not_made (mt made_placed hplaced) (by
      rw [RawMember.cost, if_neg hplaced, h.taken, Nat.add_zero])
  rw [if_neg hname]
  have hplaced : m.Placed := ⟨hskip, fun heq ↦ hname (.inl heq), fun heq ↦ hname (.inr heq)⟩
  have hcost : m.cost root = (joined root (stripSlashes m.name)).length + 1 +
      if m.type = 0x32 then m.link.length + 2 else 0 := if_pos hplaced
  by_cases hsafe : (traverses (stripSlashes m.name) || !printablePath (stripSlashes m.name)) = true
  · rw [if_pos hsafe]
    rcases Bool.or_eq_true_iff.1 hsafe with hsafe | hsafe
    · exact .inl ⟨_, rfl, .inr ⟨hplaced, .inl hsafe⟩⟩
    · exact .inl ⟨_, rfl, .inr ⟨hplaced, .inr (.inl (by simpa using hsafe))⟩⟩
  rw [if_neg hsafe]
  rw [Bool.or_eq_true_iff, not_or, Bool.not_eq_true, Bool.not_eq_true, Bool.not_eq_false'] at hsafe
  by_cases hcount : maxEntries ≤ plan.entries.length
  · rw [if_pos hcount]
    exact .inl ⟨_, rfl, .inr ⟨hplaced, .inr (.inr (.inl (h.count ▸ hcount)))⟩⟩
  rw [if_neg hcount]
  by_cases hroom : cap < plan.namesUsed + (root.length + (stripSlashes m.name).length + 2)
  · rw [arenaPut, if_pos hroom]
    exact .inl ⟨_, rfl, .inr ⟨hplaced, .inr (.inr (.inr (.inl (h.taken ▸ hroom))))⟩⟩
  rw [arenaPut_some hroom]
  dsimp only
  have hpass := @not_refused cap root before m hlong' hsafe.1 hsafe.2 (h.count ▸ hcount)
    (h.taken ▸ hroom)
  by_cases hdir : m.type = 0x35
  · rw [if_pos hdir]
    refine .inr ⟨_, rfl, hpass (by simp [hdir]) (by simp [hdir]) (by simp [hdir]), ?_⟩
    refine h.of_made ⟨hplaced, by simp [hdir]⟩ ⟨nofun, fun hfile ↦ ?_⟩ ?_
    · exact absurd hfile.2 (by simp [hdir])
    · rw [hcost, h.taken, if_neg (by simp [hdir]), Nat.add_zero]
  rw [if_neg hdir]
  by_cases hlink : m.type = 0x32
  · rw [if_pos hlink]
    by_cases hbad : m.link = [] ∨ (!printablePath m.link) = true
    · rw [if_pos hbad]
      exact .inl ⟨_, rfl, .inr ⟨hplaced, .inr (.inr (.inr (.inr (.inl ⟨hlink,
        hbad.imp_right fun hprint ↦ .inl (by simpa using hprint)⟩))))⟩⟩
    rw [if_neg hbad]
    by_cases harena : cap < plan.namesUsed + ((joined root (stripSlashes m.name)).length + 1) +
        (([] : List Octet).length + m.link.length + 2)
    · rw [arenaPut, if_pos harena]
      rw [List.length_nil, Nat.zero_add, h.taken] at harena
      exact .inl ⟨_, rfl, .inr ⟨hplaced, .inr (.inr (.inr (.inr (.inl ⟨hlink,
        .inr (.inr harena)⟩))))⟩⟩
    rw [arenaPut_some harena]
    rw [List.length_nil, Nat.zero_add, h.taken] at harena
    refine .inr ⟨_, rfl, hpass ?_ (by simp [hlink]) (by simp [hlink]), ?_⟩
    · rintro ⟨-, hr | hr | hr⟩
      · exact hbad (.inl hr)
      · exact hbad (.inr (by simpa using hr))
      · exact harena hr
    · refine h.of_made ⟨hplaced, by simp [hlink]⟩ ⟨nofun, fun hfile ↦ ?_⟩ ?_
      · exact absurd hfile.2 (by simp [hlink])
      · have hjoined : (joined [] m.link).length = m.link.length + 1 := rfl
        rw [hcost, h.taken, if_pos hlink, hjoined]
        omega
  rw [if_neg hlink]
  by_cases hhard : m.type = 0x31
  · rw [if_pos hhard]
    cases hsource : linkSource plan.entries m.link with
    | none =>
      exact .inl ⟨_, rfl, .inr ⟨hplaced, .inr (.inr (.inr (.inr (.inr (.inl ⟨hhard,
        (linkSource_eq_none h).1 hsource⟩)))))⟩⟩
    | some source =>
      refine .inr ⟨_, rfl, hpass (by simp [hhard]) (fun hr ↦ ?_) (by simp [hhard]), ?_⟩
      · rw [(linkSource_eq_none h).2 hr.2] at hsource
        cases hsource
      · refine h.of_made ⟨hplaced, by simp [hhard]⟩ ⟨fun _ ↦ ⟨hplaced, by simp [hhard]⟩,
          fun _ ↦ rfl⟩ ?_
        rw [hcost, h.taken, if_neg hlink, Nat.add_zero]
  rw [if_neg hhard]
  by_cases hfile : m.type = 0x30 ∨ m.type = 0
  · rw [if_pos hfile]
    have hmem : m.type ∈ [(0x30 : Octet), 0] := by simpa using hfile
    by_cases hsize : maxEntryBytes < m.size
    · rw [if_pos hsize]
      exact .inl ⟨_, rfl, .inr ⟨hplaced, .inr (.inr (.inr (.inr (.inr (.inr ⟨hmem, hsize⟩)))))⟩⟩
    · rw [if_neg hsize]
      have hisFile : m.IsFile := ⟨hplaced, List.mem_cons_of_mem _ hmem⟩
      refine .inr ⟨_, rfl, hpass (fun hr ↦ hlink hr.1) (fun hr ↦ hhard hr.1)
        (fun hr ↦ hsize hr.2), ?_⟩
      refine h.of_made (isFile_made hisFile) ⟨fun _ ↦ hisFile, fun _ ↦ rfl⟩ ?_
      rw [hcost, h.taken, if_neg hlink, Nat.add_zero]
  rw [if_neg hfile]
  refine .inr ⟨_, rfl, hpass (fun hr ↦ hlink hr.1) (fun hr ↦ hhard hr.1)
    (fun hr ↦ hfile (by simpa using hr.1)), ?_⟩
  refine h.of_not_made (fun hmade ↦ ?_) ?_
  · have htypes := hmade.2
    simp only [List.mem_cons, hdir, hlink, hhard, false_or, List.not_mem_nil, or_false] at htypes
    exact hfile htypes
  · rw [hcost, h.taken, if_neg hlink, Nat.add_zero]

variable {rest : List Octet} {r : TarRecord}

theorem TarRecord.length_octets (r : TarRecord) :
    r.octets.length = tarBlock + (r.size + (tarBlock - 1)) / tarBlock * tarBlock := by
  rw [octets, List.length_append, r.block, r.filled]

theorem TarRecord.size_le (r : TarRecord) : r.size ≤ r.body.length := by
  rw [r.filled]
  unfold tarBlock
  omega

theorem tarLoop_short (h : rest.length < tarBlock) : tarLoop cap root off rest plan = .ok plan := by
  rw [tarLoop, dif_pos h]

theorem tarLoop_header (r : TarRecord) : tarLoop cap root off (r.header ++ rest) plan =
      if (r.header ++ rest).length < r.octets.length then
        .error (.truncated (memberName r.header) r.size)
      else
        match addMember cap root plan { r.member with content := rest.take r.size } with
        | .error e => .error e
        | .ok plan => tarLoop cap root (off + r.octets.length)
            ((r.header ++ rest).drop r.octets.length) plan := by
  have htake : (r.header ++ rest).take tarBlock = r.header := List.take_left' r.block
  have hdrop : (r.header ++ rest).drop tarBlock = rest := List.drop_left' r.block
  have hzero : ¬r.header.all (· = 0) = true := not_zero_of_checksumOk r.sum
  rw [tarLoop, dif_neg (by rw [List.length_append, r.block]; omega)]
  dsimp only
  rw [htake, hdrop, if_neg hzero, if_neg (by rw [r.sum]; decide), r.modeField, r.sizeField]
  dsimp only
  rw [← r.length_octets]
  rfl

theorem tarLoop_octets (r : TarRecord) : tarLoop cap root off (r.octets ++ rest) plan =
      match addMember cap root plan r.member with
      | .error e => .error e
      | .ok plan => tarLoop cap root (off + r.octets.length) rest plan := by
  have hbody : (r.body ++ rest).take r.size = r.body.take r.size :=
    List.take_append_of_le_length r.size_le
  have hwhole : r.header ++ (r.body ++ rest) = r.octets ++ rest := (List.append_assoc _ _ _).symm
  have h := @tarLoop_header cap off root plan (r.body ++ rest) r
  rw [hwhole, if_neg (by rw [List.length_append]; omega), hbody, List.drop_left' rfl] at h
  exact h

/-- A header without its whole body. -/
theorem tarLoop_truncated (hblock : tarBlock ≤ off) (hlt : off < r.octets.length) {start : ℕ} :
    ∃ e, tarLoop cap root start (r.octets.take off) plan = .error e := by
  have hsplit : r.octets.take off = r.header ++ r.body.take (off - tarBlock) := by
    rw [TarRecord.octets, List.take_append, r.block, List.take_of_length_le (r.block ▸ hblock)]
  rw [hsplit, tarLoop_header, ← hsplit, if_pos (by rw [List.length_take]; omega)]
  exact ⟨_, rfl⟩

/-- The reader fails on what is left of an archive exactly when a header is left without its body,
or a member before it is refused; else it has read the members before the cut. -/
theorem tarLoop_cut (h : Follows root before plan) {rs : List TarRecord} {n : ℕ}
    (hn : n ≤ (recordOctets rs).length) :
    (∃ e, tarLoop cap root off ((recordOctets rs).take n) plan = .error e ∧
      (tarBlock ≤ (wholeBefore rs n).2 ∨ ∃ front m back, (wholeBefore rs n).1 = front ++ m :: back ∧
        Refused cap root (before ++ front) m)) ∨
    ∃ plan', tarLoop cap root off ((recordOctets rs).take n) plan = .ok plan' ∧
      (wholeBefore rs n).2 < tarBlock ∧ (∀ front m back, (wholeBefore rs n).1 = front ++ m :: back →
        ¬Refused cap root (before ++ front) m) ∧
      Follows root (before ++ (wholeBefore rs n).1) plan' := by
  induction rs generalizing before plan off n with
  | nil =>
    obtain rfl : n = 0 := Nat.le_zero.1 hn
    refine .inr ⟨plan, tarLoop_short (by decide), by decide, fun front m back hsplit ↦ ?_, ?_⟩
    · simp [wholeBefore] at hsplit
    · rw [wholeBefore, List.append_nil]
      exact h
  | cons r rs ih =>
    rw [recordOctets, List.flatMap_cons, ← recordOctets, List.length_append] at hn
    rw [recordOctets, List.flatMap_cons, ← recordOctets, wholeBefore]
    by_cases hwhole : r.octets.length ≤ n
    · rw [if_pos hwhole]
      dsimp only
      have htake : (r.octets ++ recordOctets rs).take n =
          r.octets ++ (recordOctets rs).take (n - r.octets.length) := by
        rw [List.take_append, List.take_of_length_le hwhole]
      rw [htake, tarLoop_octets]
      rcases @addMember_cases cap root before r.member plan h with
        ⟨e, hadd, hrefused⟩ | ⟨next, hadd, hkeeps, hfollows⟩
      · rw [hadd]
        exact .inl ⟨e, rfl, .inr ⟨[], r.member, _, rfl, by rwa [List.append_nil]⟩⟩
      · rw [hadd]
        dsimp only
        rcases @ih (off + r.octets.length) _ next hfollows (n - r.octets.length) (by omega) with
          ⟨e, hloop, hcut | ⟨front, m, back, hsplit, hrefused⟩⟩ | ⟨last, hloop, hlt, hnone, hlast⟩
        · exact .inl ⟨e, hloop, .inl hcut⟩
        · refine .inl ⟨e, hloop, .inr ⟨r.member :: front, m, back, by rw [hsplit]; rfl, ?_⟩⟩
          rwa [List.append_assoc, List.singleton_append] at hrefused
        · refine .inr ⟨last, hloop, hlt, fun front m back hsplit ↦ ?_, ?_⟩
          · cases front with
            | nil =>
              obtain ⟨rfl, -⟩ := List.cons.inj hsplit
              rwa [List.append_nil]
            | cons first front =>
              obtain ⟨rfl, hback⟩ := List.cons.inj hsplit
              have hlater := hnone front m back hback
              rwa [List.append_assoc, List.singleton_append] at hlater
          · rwa [List.append_assoc, List.singleton_append] at hlast
    · rw [if_neg hwhole]
      have htake : (r.octets ++ recordOctets rs).take n = r.octets.take n :=
        List.take_append_of_le_length (by omega)
      rw [htake]
      by_cases hblock : tarBlock ≤ n
      · obtain ⟨e, he⟩ := @tarLoop_truncated cap n root plan r hblock (by omega) off
        exact .inl ⟨e, he, .inl hblock⟩
      · refine .inr ⟨plan, tarLoop_short ?_, not_le.1 hblock, fun front m back hsplit ↦ ?_, ?_⟩
        · rw [List.length_take]
          omega
        · simp at hsplit
        · rwa [List.append_nil]

theorem payloadTarOpen_cut (rs : List TarRecord) (trailer root : List Octet) {n : ℕ}
    (hn : n ≤ (recordOctets rs).length) :
    (∃ e, payloadTarOpen ((tarImage rs trailer).take n) root = .error e) ↔
      tarBlock ≤ (wholeBefore rs n).2 ∨ (∀ m ∈ (wholeBefore rs n).1, ¬m.Made) ∨
        ∃ front m back, (wholeBefore rs n).1 = front ++ m :: back ∧
          Refused (namesCap n) root front m := by
  have htake : (tarImage rs trailer).take n = (recordOctets rs).take n :=
    List.take_append_of_le_length hn
  have hlength : ((recordOctets rs).take n).length = n := by
    rw [List.length_take, Nat.min_eq_left hn]
  have hstart : Follows root [] ⟨[], 0⟩ := ⟨rfl, rfl, rfl⟩
  rw [htake, payloadTarOpen, hlength]
  by_cases hnil : (recordOctets rs).take n = []
  · rw [if_pos hnil]
    have hzero : n = 0 := by
      rw [← hlength, hnil]
      rfl
    refine ⟨fun _ ↦ .inr (.inl ?_), fun _ ↦ ⟨_, rfl⟩⟩
    rw [hzero]
    cases rs with
    | nil => exact List.forall_mem_nil _
    | cons r rs =>
      rw [wholeBefore, if_neg (by rw [r.length_octets]; unfold tarBlock; omega)]
      exact List.forall_mem_nil _
  rw [if_neg hnil]
  rcases @tarLoop_cut (namesCap n) 0 root [] ⟨[], 0⟩ hstart rs n hn with
    ⟨e, hloop, hcut⟩ | ⟨last, hloop, hlt, hnone, hlast⟩
  · rw [hloop]
    refine ⟨fun _ ↦ ?_, fun _ ↦ ⟨e, rfl⟩⟩
    rcases hcut with hcut | ⟨front, m, back, hsplit, hrefused⟩
    · exact .inl hcut
    · exact .inr (.inr ⟨front, m, back, hsplit, hrefused⟩)
  · rw [hloop]
    dsimp only
    have hentries : last.entries = [] ↔ ∀ m ∈ (wholeBefore rs n).1, ¬m.Made := by
      rw [← List.length_eq_zero_iff, hlast.count, List.nil_append, List.countP_eq_zero]
      simp only [decide_eq_true_eq]
    by_cases hempty : last.entries = []
    · rw [if_pos hempty]
      exact ⟨fun _ ↦ .inr (.inl (hentries.1 hempty)), fun _ ↦ ⟨_, rfl⟩⟩
    · rw [if_neg hempty]
      constructor
      · rintro ⟨e, he⟩
        cases he
      · rintro (hblock | hnothing | ⟨front, m, back, hsplit, hrefused⟩)
        · exact absurd hblock (not_le.2 hlt)
        · exact absurd (hentries.2 hnothing) hempty
        · exact absurd hrefused (hnone front m back hsplit)

/-- A path below a root: relative to it, and with no component that leads up. -/
def Below (root path : List Octet) : Prop :=
  ∃ name, path = joined root name ∧ name.head? ≠ some 0x2f ∧
    ∀ front back, name = front ++ ([0x2e, 0x2e] ++ back) →
      front ≠ [] ∧ front.getLast? ≠ some 0x2f ∨ back ≠ [] ∧ back.head? ≠ some 0x2f

/-- What an entry is made of: a path below the root, and octets of the archive. -/
def Contained (image root : List Octet) (e : WorkEntry) : Prop :=
  Below root e.path ∧ e.content <:+: image

theorem below_of_not_traverses {name : List Octet} (h : traverses name = false) :
    Below root (joined root name) := by
  unfold traverses at h
  simp only [Bool.or_eq_false_iff, decide_eq_false_iff_not] at h
  obtain ⟨⟨⟨⟨habsolute, hfirst⟩, hwhole⟩, hinner⟩, hlast⟩ := h
  refine ⟨name, rfl, habsolute, fun front back hsplit ↦ ?_⟩
  by_contra hup
  rw [not_or, not_and_or, not_and_or, not_not, not_not, not_not, not_not] at hup
  obtain ⟨hfront, hback⟩ := hup
  have hslash : back = [] ∨ ∃ after, back = 0x2f :: after := by
    refine hback.imp_right fun hhead ↦ ?_
    obtain ⟨after, rfl⟩ := List.head?_eq_some_iff.1 hhead
    exact ⟨after, rfl⟩
  rcases hfront with rfl | hfront
  · rcases hslash with rfl | ⟨after, rfl⟩
    · exact hwhole hsplit
    · rw [hsplit] at hfirst
      exact absurd (List.isPrefixOf_iff_prefix.2 ⟨after, rfl⟩) (Bool.eq_false_iff.1 hfirst)
  · obtain ⟨lead, rfl⟩ := List.getLast?_eq_some_iff.1 hfront
    rcases hslash with rfl | ⟨after, rfl⟩
    · refine absurd (List.isSuffixOf_iff_suffix.2 ⟨lead, ?_⟩) (Bool.eq_false_iff.1 hlast)
      rw [hsplit, List.append_assoc]
      rfl
    · refine absurd (List.any_eq_true.2 ⟨[0x2f, 0x2e, 0x2e, 0x2f] ++ after, ?_, ?_⟩)
        (Bool.eq_false_iff.1 hinner)
      · rw [List.mem_tails, hsplit, List.append_assoc]
        exact List.suffix_append _ _
      · exact List.isPrefixOf_iff_prefix.2 ⟨after, rfl⟩

theorem addMember_contained {image : List Octet} {plan' : TarPlan}
    (hplan : ∀ e ∈ plan.entries, Contained image root e) (hlink : m.link <:+: image)
    (hcontent : m.content <:+: image) (hadd : addMember cap root plan m = .ok plan') :
    ∀ e ∈ plan'.entries, Contained image root e := by
  have hput {kind : EntryKind} {content : List Octet} {perm : ℕ} (hpart : content <:+: image)
      (hsafe : ¬(traverses (stripSlashes m.name) || !printablePath (stripSlashes m.name)) = true) :
      ∀ e ∈ plan.entries ++ [⟨kind, joined root (stripSlashes m.name), content, perm⟩],
        Contained image root e := by
    intro e he
    rcases List.mem_append.1 he with he | he
    · exact hplan e he
    · rw [List.mem_singleton.1 he]
      rw [Bool.or_eq_true_iff, not_or, Bool.not_eq_true] at hsafe
      exact ⟨below_of_not_traverses hsafe.1, hpart⟩
  have hsource {e : WorkEntry} (he : linkSource plan.entries m.link = some e) :
      e.content <:+: image := (hplan e (List.mem_of_find?_eq_some he)).2
  unfold addMember at hadd
  dsimp only at hadd
  repeat' split at hadd
  all_goals cases hadd
  all_goals first
    | exact hplan
    | exact hput List.nil_infix (by assumption)
    | exact hput hlink (by assumption)
    | exact hput hcontent (by assumption)
    | exact hput (hsource (by assumption)) (by assumption)

theorem tarLoop_contained {image : List Octet} {plan' : TarPlan}
    (hplan : ∀ e ∈ plan.entries, Contained image root e) (hrest : rest <:+: image)
    (hloop : tarLoop cap root off rest plan = .ok plan') :
    ∀ e ∈ plan'.entries, Contained image root e := by
  induction hlength : rest.length using Nat.strong_induction_on generalizing rest off plan with
  | _ length ih =>
    rw [tarLoop] at hloop
    split at hloop
    case isTrue =>
      cases hloop
      exact hplan
    case isFalse hlong =>
      dsimp only at hloop
      split at hloop
      · cases hloop
        exact hplan
      split at hloop
      · cases hloop
      split at hloop
      · split at hloop
        · cases hloop
        split at hloop
        · cases hloop
        · case _ hadd =>
          refine ih _ ?_ (addMember_contained hplan ?_ ?_ hadd)
            ((List.drop_suffix _ _).isInfix.trans hrest) hloop rfl
          · rw [List.length_drop]
            unfold tarBlock at hlong ⊢
            omega
          · exact (List.takeWhile_prefix _).isInfix.trans ((List.take_prefix _ _).isInfix.trans
              ((List.drop_suffix _ _).isInfix.trans ((List.take_prefix _ _).isInfix.trans hrest)))
          · exact (List.take_prefix _ _).isInfix.trans ((List.drop_suffix _ _).isInfix.trans hrest)
      · cases hloop

/-- A cut archive is taken for the whole payload exactly where the cut leaves no header without its
body and the members before it are read into some entries; and whatever octets are opened, every
entry is below the prefix and comes out of them. -/
theorem payloadTarOpen_truncated (root : List Octet) :
    (∀ (rs : List TarRecord) (trailer : List Octet) (n : ℕ), n ≤ (recordOctets rs).length →
      ((∃ e, payloadTarOpen ((tarImage rs trailer).take n) root = .error e) ↔
        tarBlock ≤ (wholeBefore rs n).2 ∨ (∀ m ∈ (wholeBefore rs n).1, ¬m.Made) ∨
          ∃ front m back, (wholeBefore rs n).1 = front ++ m :: back ∧
            Refused (namesCap n) root front m)) ∧
    ∀ (image : List Octet) (entries : List WorkEntry),
      payloadTarOpen image root = .ok entries → ∀ e ∈ entries, Contained image root e := by
  refine ⟨fun rs trailer n hn ↦ payloadTarOpen_cut rs trailer root hn,
    fun image entries hopen ↦ ?_⟩
  unfold payloadTarOpen at hopen
  split at hopen
  · cases hopen
  split at hopen
  · cases hopen
  · case _ plan hloop =>
    split at hopen
    · cases hopen
    · cases hopen
      exact tarLoop_contained (List.forall_mem_nil _) List.infix_rfl hloop

/-- A file of one octet. -/
def small : Member := ⟨[], [0x66], 0o644, 0x30, .file [1]⟩

def twoFiles : List Member := [small, ⟨[], [0x67], 0o644, 0x30, .file [2]⟩]

theorem archive_twoFiles : Archive [] twoFiles (ustar [] twoFiles) := by
  apply archive_ustar
  refine forall_split_cons ?_ (forall_split_cons ?_ forall_split_nil)
  · exact ⟨⟨by decide, by decide, by decide, by decide, .inl rfl⟩,
      ⟨by decide, by decide, by decide, by decide, by decide⟩⟩
  · exact ⟨⟨by decide, by decide, by decide, by decide, .inl rfl⟩,
      ⟨by decide, by decide, by decide, by decide, by decide⟩⟩

/-- Cut between its two members, the archive is opened as the first of them. -/
theorem open_twoFiles_cut : Archive [] twoFiles (ustar [] twoFiles) ∧
    2 * tarBlock < (ustar [] twoFiles).length - 2 * tarBlock ∧
    payloadTarOpen ((ustar [] twoFiles).take (2 * tarBlock)) [] =
      .ok (entriesOf [] [] (twoFiles.take 1)) := by
  have ha : Archivable [] small := ⟨by decide, by decide, by decide, by decide, .inl rfl⟩
  have hw : Writable [] small := ⟨by decide, by decide, by decide, by decide, by decide⟩
  have hg : Writable [small] ⟨[], [0x67], 0o644, 0x30, .file [2]⟩ :=
    ⟨by decide, by decide, by decide, by decide, by decide⟩
  obtain ⟨record, hrecord⟩ : ∃ record, record = (small.header []).octets ++ (small.body ++
      List.replicate ((tarBlock - small.body.length % tarBlock) % tarBlock) 0) := ⟨_, rfl⟩
  have hlength : record.length = 2 * tarBlock := by
    rw [hrecord, List.length_append, List.length_append, (describes_header hw).length_octets,
      List.length_replicate]
    rfl
  have hsplit : ustar [] twoFiles =
      record ++ ustar [small] [⟨[], [0x67], 0o644, 0x30, .file [2]⟩] := hrecord ▸ rfl
  refine ⟨archive_twoFiles, ?_, ?_⟩
  · rw [hsplit, List.length_append, hlength, ustar, ustar, List.length_append, List.length_append,
      (describes_header hg).length_octets, List.length_append, List.length_replicate,
      List.length_replicate]
    decide
  · have hread : Record [] small record :=
      ⟨small.header [], _, describes_header hw, List.length_replicate, hrecord⟩
    have hadd : addMember (namesCap (2 * tarBlock)) [] ⟨[], 0⟩ (small.read []) =
        .ok ⟨entriesOf [] [] [small], 3⟩ := rfl
    have hloop := @tarLoop_record (namesCap (2 * tarBlock)) 0 [] [] [] small ⟨[], 0⟩
      (List.forall_mem_nil _) ha record hread
    rw [List.append_nil, hadd] at hloop
    dsimp only at hloop
    have hshort : ([] : List Octet).length < tarBlock := by decide
    rw [tarLoop_short hshort] at hloop
    have hsome : record ≠ [] := fun hnil ↦ by
      rw [hnil] at hlength
      cases hlength
    rw [hsplit, List.take_left' hlength, payloadTarOpen, if_neg hsome, hlength, hloop]
    rfl

end S5LBox.Tools
