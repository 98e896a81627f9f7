import S5LBox.Firmware.Sha1

/-!
# Streaming digests

The context of a stream holds the state of the whole blocks so far and the rest of the message;
every update keeps that, and the end pads the rest as the standard does.
-/

namespace S5LBox.Firmware

open List BlockStream Span

theorem schedule_of_lt {block : List Octet} {t : ℕ} (h : t < 16) :
    schedule block t = getBe32 block (4 * t) := by
  rw [schedule, if_pos h]

theorem schedule_add (block : List Octet) (n : ℕ) :
    schedule block (16 + n) = (schedule block (13 + n) ^^^ schedule block (8 + n) ^^^
      schedule block (2 + n) ^^^ schedule block n).rotateLeft 1 := by
  rw [schedule, if_neg (by omega), show 16 + n - 3 = 13 + n by omega,
    show 16 + n - 8 = 8 + n by omega, show 16 + n - 14 = 2 + n by omega, Nat.add_sub_cancel_left]

theorem rotateLeft_eq (value : Word) {count : ℕ} (h : count < 32) :
    rotateLeft value count = value.rotateLeft count := by
  rw [rotateLeft, BitVec.rotateLeft_def, Nat.mod_eq_of_lt h]

theorem words_eq_schedule (block : List Octet) (n : ℕ) :
    ∃ words, (List.range' 16 n).foldl (fun words index ↦ words ++
        [rotateLeft (words.getD (index - 3) 0 ^^^ words.getD (index - 8) 0 ^^^
          words.getD (index - 14) 0 ^^^ words.getD (index - 16) 0) 1])
        ((List.range 16).map fun index ↦ getBe32 block (index * 4)) = words ∧
      words = (List.range (16 + n)).map (schedule block) := by
  refine ⟨_, rfl, ?_⟩
  induction n with
  | zero =>
    refine map_congr_left fun t ht ↦ ?_
    rw [schedule_of_lt (mem_range.1 ht), Nat.mul_comm]
  | succ n ih =>
    have hget (t : ℕ) (ht : t < 16 + n) :
        ((List.range (16 + n)).map (schedule block)).getD t 0 = schedule block t := by
      rw [getD_eq_getElem?_getD, getElem?_map, getElem?_range ht]
      rfl
    rw [range'_1_concat, foldl_append, ih, foldl_cons, foldl_nil,
      ← Nat.add_assoc, range_succ, map_append, map_singleton, schedule_add,
      rotateLeft_eq _ (by decide), hget _ (by omega), hget _ (by omega), hget _ (by omega),
      hget _ (by omega), show 16 + n - 3 = 13 + n by omega, show 16 + n - 8 = 8 + n by omega,
      show 16 + n - 14 = 2 + n by omega, Nat.add_sub_cancel_left]

theorem getD_transformWords {block : List Octet} {t : ℕ} (ht : t < 80) :
    (transformWords block).getD t 0 = schedule block t := by
  obtain ⟨words, hwords, heq⟩ := words_eq_schedule block 64
  rw [transformWords, hwords, heq, getD_eq_getElem?_getD, getElem?_map, getElem?_range ht]
  rfl

theorem transformRound_eq {block : List Octet} {t : ℕ} (ht : t < 80) (s : Sha1State) :
    transformRound (transformWords block) s t = sha1Round (schedule block) s t := by
  unfold transformRound sha1Round roundFunction roundConstant
  rw [getD_transformWords ht, rotateLeft_eq _ (by decide), rotateLeft_eq _ (by decide)]
  dsimp only
  by_cases hfirst : t < 20
  · rw [if_pos hfirst, if_pos hfirst, if_pos hfirst]
  · rw [if_neg hfirst, if_neg hfirst, if_neg hfirst]
    by_cases hsecond : t < 40
    · rw [if_pos hsecond, if_pos hsecond, if_pos hsecond]
    · rw [if_neg hsecond, if_neg hsecond, if_neg hsecond]
      by_cases hthird : t < 60
      · rw [if_pos hthird, if_pos hthird, if_pos hthird]
      · rw [if_neg hthird, if_neg hthird, if_neg hthird]

theorem transform_eq : transform = compress := by
  funext s block
  have hrounds : (List.range 80).foldl (transformRound (transformWords block)) s =
      (List.range 80).foldl (sha1Round (schedule block)) s :=
    foldl_ext _ _ _ fun s t ht ↦ transformRound_eq (mem_range.1 ht) s
  rw [transform, hrounds]
  rfl

/-- What a context holds of the message so far. -/
structure Streams (ctx : Sha1Ctx) (message : List Octet) : Prop where
  state : ctx.state = absorb compress 64 sha1Initial message
  total : ctx.totalBytes = message.length
  room : message.length ≤ sha1MaxInputBytes
  used : ctx.blockUsed < 64
  held : window ctx.block 0 ctx.blockUsed = left 64 message
  live : ctx.finalized = false

theorem streams_init : Streams sha1Init [] :=
  ⟨rfl, rfl, Nat.zero_le _, by decide, rfl, rfl⟩

theorem updateBlocks_eq (s : Sha1State) (bytes : List Octet) :
    updateBlocks s bytes = (absorb compress 64 s bytes, left 64 bytes) := by
  fun_induction updateBlocks with
  | case1 s bytes h ih =>
    rw [ih, transform_eq]
    exact Prod.ext (absorb_of_le (by decide) h).symm (left_of_le (by decide) h).symm
  | case2 s bytes h =>
    have hlt : bytes.length < 64 := not_le.1 h
    rw [absorb_of_lt hlt, left_of_lt hlt]

/-- What is in the block and what is still to come, together, are the same stream; and one of the
two is empty. -/
theorem updateHead_eq {ctx : Sha1Ctx} (hused : ctx.blockUsed < 64) (bytes : List Octet) :
    ∃ state block used rest, updateHead ctx bytes =
        ({ ctx with state := state, block := block, blockUsed := used }, rest) ∧
      used < 64 ∧ (used = 0 ∨ rest = []) ∧
      absorb compress 64 state (window block 0 used ++ rest) =
        absorb compress 64 ctx.state (window ctx.block 0 ctx.blockUsed ++ bytes) ∧
      left 64 (window block 0 used ++ rest) =
        left 64 (window ctx.block 0 ctx.blockUsed ++ bytes) := by
  obtain ⟨state, total, block, used, finalized⟩ := ctx
  dsimp only at hused ⊢
  unfold updateHead
  dsimp only
  by_cases hempty : used ≠ 0
  · rw [if_pos hempty]
    obtain ⟨take, htake⟩ : ∃ take, min bytes.length (sha1BlockSize - used) = take := ⟨_, rfl⟩
    have hlength : (bytes.take take).length = take := by
      rw [length_take]
      omega
    have hwindow : window (overwrite block used (bytes.take take)) 0 (used + take) =
        window block 0 used ++ bytes.take take := by
      have h := window_overwrite_append block 0 used (bytes.take take)
      rwa [Nat.zero_add, hlength] at h
    rw [htake]
    have hsplit : window (overwrite block used (bytes.take take)) 0 (used + take) ++
        bytes.drop take = window block 0 used ++ bytes := by
      rw [hwindow, append_assoc, take_append_drop]
    rw [← hsplit]
    by_cases hfull : used + take = sha1BlockSize
    · rw [if_pos hfull, hfull]
      have hblock : (window (overwrite block used (bytes.take take)) 0
          sha1BlockSize).length = 64 := length_window _ _ _
      refine ⟨_, _, 0, _, rfl, by decide, .inl rfl, ?_, ?_⟩
      · rw [absorb_append_of_length (show 0 < 64 by decide) hblock, transform_eq]
        rfl
      · rw [left_append_of_length (show 0 < 64 by decide) hblock]
        rfl
    · rw [if_neg hfull]
      have hlt : used + take < 64 := by
        unfold sha1BlockSize at *
        omega
      have hrest : bytes.drop take = [] := drop_of_length_le (by
        unfold sha1BlockSize at *
        omega)
      exact ⟨_, _, _, _, rfl, hlt, .inr hrest, rfl, rfl⟩
  · rw [if_neg hempty]
    exact ⟨_, _, _, _, rfl, hused, .inl (not_not.1 hempty), rfl, rfl⟩

theorem sha1Update_refused {ctx : Sha1Ctx} {input : Input} (h : (sha1Update ctx input).1 = false) :
    (sha1Update ctx input).2 = ctx := by
  unfold sha1Update at h ⊢
  split
  · rfl
  · split
    · rfl
    · rename_i hlive hroom
      rw [if_neg hlive, if_neg hroom] at h
      split at h
      · cases h
      · dsimp only at h
        split at h <;> cases h

theorem Input.length_data {input : Input} (h : input.bad = false) :
    input.data.length = input.length := by
  cases input with
  | null length => exact (not_not.1 (of_decide_eq_false h)).symm
  | octets data => rfl

variable {ctx : Sha1Ctx} {message : List Octet} {input : Input}

theorem sha1Update_of_not (h : Streams ctx message)
    (hrefused : input.bad = true ∨ sha1MaxInputBytes < message.length + input.length) :
    sha1Update ctx input = (false, ctx) := by
  unfold sha1Update
  rw [h.total]
  have hroom := h.room
  by_cases hbad : input.bad = true
  · rw [if_pos (by rw [hbad]; rfl)]
  · have hlong : sha1MaxInputBytes < message.length + input.length := hrefused.resolve_left hbad
    split
    · rfl
    · rw [if_pos (by omega)]

theorem sha1Update_streams (h : Streams ctx message) (hbad : input.bad = false)
    (hlength : message.length + input.length ≤ sha1MaxInputBytes) :
    ∃ last, sha1Update ctx input = (true, last) ∧ Streams last (message ++ input.data) := by
  have hdata := Input.length_data hbad
  have hroom := h.room
  have hused := h.used
  unfold sha1Update
  have hpass : ¬(input.bad || ctx.finalized || decide (sha1BlockSize ≤ ctx.blockUsed) ||
      decide (sha1MaxInputBytes < ctx.totalBytes)) = true := by
    rw [hbad, h.live, h.total, Bool.false_or, Bool.false_or, Bool.or_eq_true, decide_eq_true_iff,
      decide_eq_true_iff]
    unfold sha1BlockSize
    omega
  rw [if_neg hpass, h.total, if_neg (by omega)]
  by_cases hempty : input.length = 0
  · rw [if_pos hempty]
    have hnil : input.data = [] := length_eq_zero_iff.1 (hdata.trans hempty)
    exact ⟨ctx, rfl, by rw [hnil, append_nil]; exact h⟩
  rw [if_neg hempty]
  obtain ⟨state, block, used, rest, hhead, hlt, hor, habsorb, hleft⟩ :=
    @updateHead_eq { ctx with totalBytes := message.length + input.length } hused input.data
  dsimp only at habsorb hleft
  rw [h.held, h.state, ← absorb_append (by decide)] at habsorb
  rw [h.held, ← left_append (by decide)] at hleft
  rw [hhead]
  dsimp only
  rw [updateBlocks_eq]
  dsimp only
  have htotal : (message ++ input.data).length = message.length + input.length := by
    rw [length_append, hdata]
  rcases hor with rfl | rfl
  · rw [window_zero, nil_append] at habsorb hleft
    rw [habsorb, hleft]
    by_cases hnil : left 64 (message ++ input.data) ≠ []
    · rw [if_pos hnil]
      refine ⟨_, rfl, rfl, htotal.symm, htotal ▸ hlength, length_left_lt (by decide) _, ?_, h.live⟩
      exact window_overwrite block 0 _
    · rw [if_neg hnil]
      exact ⟨_, rfl, rfl, htotal.symm, htotal ▸ hlength, Nat.zero_lt_succ _,
        (not_not.1 hnil).symm, h.live⟩
  · rw [append_nil] at habsorb hleft
    have hshort : (window block 0 used).length < 64 := by
      rw [length_window]
      exact hlt
    rw [absorb_of_lt hshort] at habsorb
    rw [left_of_lt hshort] at hleft
    rw [left_of_lt (by decide), if_neg (by simp), absorb_of_lt (by decide)]
    exact ⟨_, rfl, habsorb, htotal.symm, htotal ▸ hlength, hlt, hleft, h.live⟩

theorem length_lengthOctets (bits : ℕ) : (lengthOctets bits).length = 8 := by
  rw [lengthOctets, length_map, length_range]

theorem finalBlock_eq (hused : ctx.blockUsed < 64) : ∃ state block used, finalBlock ctx =
        { ctx with state := state, block := block, blockUsed := used } ∧ used ≤ 56 ∧
      ∀ rest, rest.length = 8 → absorb compress 64 state
            (window block 0 used ++ (List.replicate (56 - used) 0 ++ rest)) =
          absorb compress 64 ctx.state (window ctx.block 0 ctx.blockUsed ++
            (0x80 :: List.replicate (padZeros ctx.blockUsed) 0 ++ rest)) := by
  obtain ⟨state, total, block, used, finalized⟩ := ctx
  dsimp only at hused ⊢
  unfold finalBlock
  dsimp only
  have hmark : window (overwrite block used [0x80]) 0 (used + 1) =
      window block 0 used ++ [0x80] := by
    have h := window_overwrite_append block 0 used [(0x80 : Octet)]
    rwa [Nat.zero_add] at h
  by_cases hfull : 56 < used + 1
  · rw [if_pos hfull]
    refine ⟨_, _, 0, rfl, by decide, fun rest hrest ↦ ?_⟩
    have hzeros : padZeros used = (64 - (used + 1)) + 56 := by
      unfold padZeros
      omega
    have hblock : window (overwrite (overwrite block used [0x80]) (used + 1)
        (List.replicate (sha1BlockSize - (used + 1)) 0)) 0 sha1BlockSize =
          window block 0 used ++ [0x80] ++ List.replicate (64 - (used + 1)) 0 := by
      have h := window_overwrite_append (overwrite block used [0x80]) 0 (used + 1)
        (List.replicate (64 - (used + 1)) (0 : Octet))
      rw [length_replicate, Nat.add_sub_cancel' (by omega), hmark, Nat.zero_add] at h
      exact h
    have hlength : (window block 0 used ++ [0x80] ++
        List.replicate (64 - (used + 1)) (0 : Octet)).length = 64 := by
      rw [← hblock, length_window]
      rfl
    rw [hblock, transform_eq, hzeros, replicate_add, window_zero, nil_append]
    calc absorb compress 64 (compress state _) _
        = absorb compress 64 state ((window block 0 used ++ [0x80] ++
            List.replicate (64 - (used + 1)) 0) ++ (List.replicate (56 - 0) 0 ++ rest)) :=
          (absorb_append_of_length (show 0 < 64 by decide) hlength _).symm
      _ = _ := by
          simp only [append_assoc, cons_append, nil_append, Nat.sub_zero]
  · rw [if_neg hfull]
    refine ⟨_, _, _, rfl, by omega, fun rest hrest ↦ ?_⟩
    have hzeros : padZeros used = 56 - (used + 1) := by
      unfold padZeros
      omega
    rw [hmark, hzeros, append_assoc]
    rfl

theorem padZeros_mod (length : ℕ) : padZeros (length % 64) = padZeros length := by
  rw [padZeros, padZeros, Nat.mod_mod]

theorem window_finalBlock (block : ℕ → Octet) {used : ℕ} (hle : used ≤ 56) {rest : List Octet}
    (hrest : rest.length = 8) :
    window (overwrite (overwrite block used (List.replicate (56 - used) 0)) 56 rest)
        0 sha1BlockSize = window block 0 used ++ (List.replicate (56 - used) 0 ++ rest) := by
  have hzeros := window_overwrite_append block 0 used (List.replicate (56 - used) (0 : Octet))
  rw [Nat.zero_add, length_replicate, Nat.add_sub_cancel' hle] at hzeros
  have hlast := window_overwrite_append
    (overwrite block used (List.replicate (56 - used) 0)) 0 56 rest
  rwa [Nat.zero_add, hzeros, hrest, append_assoc] at hlast

theorem digest_of_finalBlock (h : Streams ctx message) {state : Sha1State} {block : ℕ → Octet}
    {used : ℕ} (hle : used ≤ 56) (habsorb : ∀ rest, rest.length = 8 → absorb compress 64 state
          (window block 0 used ++ (List.replicate (56 - used) 0 ++ rest)) =
        absorb compress 64 ctx.state (window ctx.block 0 ctx.blockUsed ++
          (0x80 :: List.replicate (padZeros ctx.blockUsed) 0 ++ rest))) :
    (transform state (window (overwrite (overwrite block used
      (List.replicate (56 - used) 0)) 56 (lengthOctets (8 * message.length))) 0
        sha1BlockSize)).octets = sha1 message := by
  have hrest := length_lengthOctets (8 * message.length)
  have hused : ctx.blockUsed = message.length % 64 := by
    rw [← length_left, ← h.held, length_window]
  have hlength : (window block 0 used ++ (List.replicate (56 - used) 0 ++
      lengthOctets (8 * message.length))).length = 64 := by
    rw [length_append, length_append, length_window, length_replicate, hrest]
    omega
  rw [window_finalBlock block hle hrest, transform_eq, sha1, absorb_append (by decide), padding,
    ← padZeros_mod, ← hused, ← h.held, ← h.state, ← habsorb _ hrest,
    absorb_of_le (by decide) hlength.ge, take_of_length_le hlength.le,
    drop_of_length_le hlength.le, absorb_of_lt (by decide)]

theorem sha1Final_streams (h : Streams ctx message) :
    ∃ last, sha1Final ctx = (some (sha1 message), last) ∧ last.finalized = true := by
  have hroom := h.room
  have hused := h.used
  have hpass : ¬(ctx.finalized || decide (sha1BlockSize ≤ ctx.blockUsed) ||
      decide (sha1MaxInputBytes < ctx.totalBytes)) = true := by
    rw [h.live, h.total, Bool.false_or, Bool.or_eq_true, decide_eq_true_iff, decide_eq_true_iff]
    unfold sha1BlockSize
    omega
  have hbits : ctx.totalBytes * 8 % 2 ^ 64 = 8 * message.length := by
    rw [h.total]
    unfold sha1MaxInputBytes at hroom
    omega
  obtain ⟨state, block, used, hfinal, hle, habsorb⟩ := finalBlock_eq hused
  have hdigest := digest_of_finalBlock h hle habsorb
  unfold sha1Final
  rw [if_neg hpass, hfinal, hbits]
  dsimp only
  rw [hdigest]
  exact ⟨_, rfl, rfl⟩

theorem sha1_finalized (h : ctx.finalized = true) (input : Input) :
    sha1Final ctx = (none, ctx) ∧ sha1Update ctx input = (false, ctx) := by
  unfold sha1Final sha1Update
  rw [h, Bool.true_or, Bool.true_or, if_pos rfl, Bool.or_true, Bool.true_or, Bool.true_or,
    if_pos rfl]
  exact ⟨rfl, rfl⟩

/-- The context after a run of updates, and the data of those that were taken. -/
def feed : Sha1Ctx → List Input → Sha1Ctx × List Octet
  | ctx, [] => (ctx, [])
  | ctx, input :: rest =>
    let (ok, next) := sha1Update ctx input
    let (last, taken) := feed next rest
    (last, if ok then input.data ++ taken else taken)

theorem feed_streams (h : Streams ctx message) (calls : List Input) :
    Streams (feed ctx calls).1 (message ++ (feed ctx calls).2) := by
  induction calls generalizing ctx message with
  | nil =>
    rw [feed, append_nil]
    exact h
  | cons input rest ih =>
    rw [feed]
    by_cases hrefused : input.bad = true ∨ sha1MaxInputBytes < message.length + input.length
    · rw [sha1Update_of_not h hrefused]
      exact ih h
    · rw [not_or, Bool.not_eq_true, not_lt] at hrefused
      obtain ⟨last, hlast, hstreams⟩ := sha1Update_streams h hrefused.1 hrefused.2
      rw [hlast]
      have hrest := ih hstreams
      rw [append_assoc] at hrest
      exact hrest

theorem feed_taken (h : Streams ctx message) {calls : List Input}
    (hlength : (message ++ calls.flatMap Input.data).length ≤ sha1MaxInputBytes) :
    (feed ctx calls).2 = calls.flatMap Input.data := by
  induction calls generalizing ctx message with
  | nil => rfl
  | cons input rest ih =>
    rw [flatMap_cons] at hlength
    rw [feed, flatMap_cons]
    by_cases hbad : input.bad = true
    · have hdata : input.data = [] := by
        cases input with
        | null length => rfl
        | octets data => cases hbad
      rw [hdata, nil_append] at hlength
      rw [sha1Update_of_not h (.inl hbad), hdata]
      exact ih h hlength
    · rw [Bool.not_eq_true] at hbad
      have hfits : message.length + input.length ≤ sha1MaxInputBytes := by
        rw [length_append, length_append, Input.length_data hbad] at hlength
        omega
      obtain ⟨last, hlast, hstreams⟩ := sha1Update_streams h hbad hfits
      rw [← append_assoc] at hlength
      rw [hlast]
      exact congrArg (input.data ++ ·) (ih hstreams hlength)

theorem vmfwSha1_eq (hbad : input.bad = false) (hlength : input.length ≤ sha1MaxInputBytes) :
    vmfwSha1 input = some (sha1 input.data) := by
  obtain ⟨ctx, hctx, hstreams⟩ := sha1Update_streams streams_init hbad (by simpa using hlength)
  obtain ⟨last, hlast, -⟩ := sha1Final_streams hstreams
  rw [vmfwSha1, hbad, if_neg Bool.false_ne_true, hctx]
  dsimp only
  rw [if_pos rfl, hlast, nil_append]

theorem sha1Pair_eq {first second : Input} (hfirst : first.bad = false)
    (hsecond : second.bad = false) (hlength : first.length + second.length ≤ sha1MaxInputBytes) :
    sha1Pair first second = some (sha1 (first.data ++ second.data)) := by
  obtain ⟨ctx, hctx, hstreams⟩ := sha1Update_streams streams_init hfirst (by
    rw [length_nil]
    omega)
  obtain ⟨both, hboth, hstreams⟩ := sha1Update_streams hstreams hsecond (by
    rw [nil_append, Input.length_data hfirst]
    exact hlength)
  obtain ⟨last, hlast, -⟩ := sha1Final_streams hstreams
  rw [sha1Pair, hctx]
  dsimp only
  rw [if_pos rfl, hboth]
  dsimp only
  rw [if_pos rfl, hlast, nil_append]

theorem length_sha1 (message : List Octet) : (sha1 message).length = sha1DigestSize := rfl

theorem vmfwHmacSha1_eq {key : Input} (hkey : key.bad = false) (hmessage : input.bad = false)
    (hkeyLength : key.length ≤ sha1MaxInputBytes)
    (hlength : sha1BlockSize + input.length ≤ sha1MaxInputBytes) (out : List Octet) :
    vmfwHmacSha1 key input out = (true, hmacSha1 key.data input.data) := by
  have hdata := Input.length_data hkey
  have hhashed : (if sha1BlockSize < key.length then vmfwSha1 key else some key.data) =
      some (if 64 < key.data.length then sha1 key.data else key.data) := by
    rw [hdata, vmfwSha1_eq hkey hkeyLength]
    exact (apply_ite some _ _ _).symm
  have hsize : (blockKey key.data).length = 64 := by
    rw [blockKey, length_append, length_replicate]
    split
    · rw [length_sha1]
      rfl
    · omega
  have hpad (c : Octet) : (Input.octets ((blockKey key.data).map (· ^^^ c))).length = 64 := by
    rw [Input.length, length_map, hsize]
  unfold vmfwHmacSha1
  rw [hkey, hmessage, Bool.or_self, if_neg Bool.false_ne_true, hhashed]
  obtain ⟨short, hshort⟩ : ∃ short,
      (if 64 < key.data.length then sha1 key.data else key.data) = short := ⟨_, rfl⟩
  have hblock : short ++ List.replicate (sha1BlockSize - short.length) 0 = blockKey key.data := by
    rw [← hshort]
    rfl
  rw [hshort]
  dsimp only
  rw [hblock, sha1Pair_eq rfl hmessage (by rw [hpad]; exact hlength)]
  dsimp only
  rw [sha1Pair_eq rfl rfl (by rw [hpad, Input.length, length_sha1]; decide)]
  rfl

/-- A refused update changes nothing; any run of updates, cut anywhere and with refusals between,
ends in the digest of all it took, once; and the keyed digest is the one over that hash. -/
theorem sha1_streaming :
    (∀ ctx input, (sha1Update ctx input).1 = false → (sha1Update ctx input).2 = ctx) ∧
    (∀ calls, ∃ last, sha1Final (feed sha1Init calls).1 =
        (some (sha1 (feed sha1Init calls).2), last) ∧
      sha1Final last = (none, last) ∧ (∀ input, sha1Update last input = (false, last)) ∧
      ((calls.flatMap Input.data).length ≤ sha1MaxInputBytes →
        (feed sha1Init calls).2 = calls.flatMap Input.data)) ∧
    ∀ key message out, key.bad = false → message.bad = false →
      key.length ≤ sha1MaxInputBytes → sha1BlockSize + message.length ≤ sha1MaxInputBytes →
        vmfwHmacSha1 key message out = (true, hmacSha1 key.data message.data) := by
  refine ⟨fun ctx input ↦ sha1Update_refused, fun calls ↦ ?_, fun key message out hkey hmessage
    hkeyLength hlength ↦ vmfwHmacSha1_eq hkey hmessage hkeyLength hlength out⟩
  have hstreams := feed_streams streams_init calls
  rw [nil_append] at hstreams
  obtain ⟨last, hlast, hdone⟩ := sha1Final_streams hstreams
  exact ⟨last, hlast, (sha1_finalized hdone (.null 0)).1,
    fun input ↦ (sha1_finalized hdone input).2, feed_taken streams_init⟩

end S5LBox.Firmware
