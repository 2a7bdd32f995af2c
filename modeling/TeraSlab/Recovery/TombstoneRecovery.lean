import TeraSlab.Recovery.TombstoneLog

/-!
# Tombstones survive crashes

A tombstone that a checkpoint has persisted is on disk, and every later load finds it, until the
key is recorded again, cleared, or past retention. Two things can break this. An append continues
the file where it ends: behind a torn entry the cells no longer line up, and behind a torn header
there is no header at all. And an append writes all buffered entries, among them the old ones of a
key that a rewrite left buffered because the index had a newer value.
-/

namespace TeraSlab.Recovery

open Foundations Index

variable {crc : List UInt8 → UInt32} {e : TxKey × TombValue} {es : List (TxKey × TombValue)}

/-! ### Entries -/

section

variable (e)

theorem length_entryBody : (entryBody e).length = crcOff := by
  simp [entryBody, crcOff]

theorem length_encodeEntry : (encodeEntry crc e).length = tombstoneEntrySize := by
  simp [encodeEntry, length_entryBody, crcOff, tombstoneEntrySize]

theorem entryBody_fields (rest : List UInt8) : bytesAt 32 (entryBody e ++ rest) 0 = e.1.txid ∧
      leAt 4 (entryBody e ++ rest) 32 = e.2.generation.toNat ∧
      leAt 4 (entryBody e ++ rest) 36 = e.2.height.toNat ∧
      byteAt (entryBody e ++ rest) 40 = e.2.cause := by
  have hgen : e.2.generation.toNat < 256 ^ 4 := e.2.generation.toNat_lt
  have hheight : e.2.height.toNat < 256 ^ 4 := e.2.height.toNat_lt
  have hkey : e.1.txid.toList.length = 32 := by simp
  simp only [entryBody, List.append_assoc]
  refine ⟨bytesAt_toList _ _, ?_, ?_, ?_⟩
  · rw [leAt_append_right hkey.le, hkey, leAt_toLe, Nat.mod_eq_of_lt hgen]
  · rw [leAt_append_right (by omega), hkey, leAt_append_right (by simp), length_toLe, leAt_toLe,
      Nat.mod_eq_of_lt hheight]
  · rw [byteAt_append_right (by omega), hkey, byteAt_append_right (by simp), length_toLe,
      byteAt_append_right (by simp), length_toLe]
    rfl

theorem decodeEntry_encodeEntry : (decodeEntry crc (encodeEntry crc e)).toOption = some e := by
  have hlen : ¬ (encodeEntry crc e).length < tombstoneEntrySize := by
    rw [length_encodeEntry]
    exact lt_irrefl _
  have htake : (encodeEntry crc e).take crcOff = entryBody e := by
    rw [encodeEntry, ← length_entryBody e, List.take_left]
  have hsum : leAt 4 (encodeEntry crc e) crcOff = (crc (entryBody e)).toNat := by
    have hlt : (crc (entryBody e)).toNat < 256 ^ 4 := (crc (entryBody e)).toNat_lt
    rw [encodeEntry, leAt_append_right (length_entryBody e).le, length_entryBody, Nat.sub_self,
      ← List.append_nil (toLe _ _), leAt_toLe, Nat.mod_eq_of_lt hlt]
  obtain ⟨hkey, hgen, hheight, hcause⟩ :=
    entryBody_fields e (toLe 4 (crc (entryBody e)).toNat)
  rw [decodeEntry, if_neg hlen]
  rw [htake, hsum, if_neg (not_not.mpr rfl), encodeEntry, hkey, hgen, hheight, hcause]
  simp [Except.toOption]

end

/-! ### Files -/

variable {file : Option (List UInt8)} {k : TxKey} {v : TombValue} {retention : UInt32}

namespace TombstoneLog

variable {loaded : TombstoneLog}

@[simp] theorem length_tombHeader : tombHeader.length = tombHeaderSize := by decide

theorem load_header (body : List UInt8) :
    load crc (some (tombHeader ++ body)) =
      .ok { index := insertAll ∅ (decodeCells tombstoneEntrySize
        (fun cell => (decodeEntry crc cell).toOption) body) } := by
  have hmagic : leAt 4 (tombHeader ++ body) 0 = tombMagic := by
    rw [leAt_append_left (by decide)]
    decide
  have hversion : leAt 4 (tombHeader ++ body) 4 = tombVersion := by
    rw [leAt_append_left (by decide)]
    decide
  have hlen : ¬ (tombHeader ++ body).length < tombHeaderSize := by simp
  have hdrop : (tombHeader ++ body).drop tombHeaderSize = body := by
    rw [← length_tombHeader, List.drop_left]
  rw [load, if_neg hlen]
  rw [hmagic, hversion, if_neg (by simp), hdrop]

def Holds (crc : List UInt8 → UInt32) (file : Option (List UInt8)) (k : TxKey) (v : TombValue) :
    Prop :=
  ∃ loaded, load crc file = .ok loaded ∧ loaded.lookup k = some v

theorem holds_writeAllAtomic {index : AList fun _ : TxKey => TombValue}
    (h : index.lookup k = some v) : Holds crc (some (writeAllAtomic crc (listing index))) k v := by
  refine ⟨_, load_header _, ?_⟩
  rw [decodeCells_flatMap (by decide) length_encodeEntry decodeEntry_encodeEntry]
  exact (lookup_insertAll _).trans (newest_listing h)

/-- There is no file, or it is a header with whole cells. -/
def Aligned : Option (List UInt8) → Prop
  | none => True
  | some data => tombHeaderSize ≤ data.length ∧ tombstoneEntrySize ∣ data.length - tombHeaderSize

instance : DecidablePred Aligned
  | none => .isTrue trivial
  | some _ => inferInstanceAs (Decidable (_ ∧ _))

theorem length_appendedBytes_none :
    (appendedBytes crc none es).length = tombHeaderSize + es.length * tombstoneEntrySize := by
  have hcells : (es.flatMap (encodeEntry crc)).length = es.length * tombstoneEntrySize :=
    length_cells length_encodeEntry es
  rw [← hcells, ← length_tombHeader]
  exact List.length_append

/-- More bytes behind an aligned file add the entries of their whole cells. -/
theorem load_behind {data bytes : List UInt8} (hload : load crc (some data) = .ok loaded)
    (haligned : Aligned (some data)) :
    load crc (some (data ++ bytes)) = .ok { index := (insertAll loaded.index
      (decodeCells tombstoneEntrySize (fun cell => (decodeEntry crc cell).toOption) bytes)) } := by
  obtain ⟨hlong, hwhole⟩ := haligned
  have hlen : ¬ (data ++ bytes).length < tombHeaderSize := by simp; omega
  have hmagic : leAt 4 (data ++ bytes) 0 = leAt 4 data 0 :=
    leAt_append_left (le_trans (by decide) hlong)
  have hversion : leAt 4 (data ++ bytes) 4 = leAt 4 data 4 :=
    leAt_append_left (le_trans (by decide) hlong)
  rw [load, if_neg (not_lt.mpr hlong)] at hload
  rw [load, if_neg hlen]
  dsimp only at hload ⊢
  rw [hmagic, hversion]
  split_ifs at hload ⊢ with hbad
  obtain rfl := Except.ok.inj hload
  rw [List.drop_append_of_le_length hlong,
    decodeCells_append (by decide) (by rwa [List.length_drop]), insertAll, List.foldl_append]
  rfl

/-- After an append to an aligned file of which some bytes are kept, a load finds the entries of a
first part of it, and all of them if everything was kept. -/
theorem load_append (es : List (TxKey × TombValue)) (hload : load crc file = .ok loaded)
    (haligned : Aligned file) (kept : Nat) :
    ∃ n loaded', load crc (some (file.getD [] ++ (appendedBytes crc file es).take kept)) =
        .ok loaded' ∧
      ((appendedBytes crc file es).length ≤ kept → es.length ≤ n) ∧
      ∀ k, loaded'.lookup k = newest k (loaded.lookup k) (es.take n) := by
  have hpos : 0 < tombstoneEntrySize := by decide
  cases file with
  | none =>
    obtain rfl : ({} : TombstoneLog) = loaded := Except.ok.inj hload
    rw [length_appendedBytes_none]
    by_cases hshort : kept < tombHeaderSize
    · refine ⟨0, {}, ?_, by omega, fun k => rfl⟩
      rw [Option.getD_none, List.nil_append, load, if_pos]
      exact (List.length_take_le _ _).trans_lt hshort
    · have hbytes : appendedBytes crc none es = tombHeader ++ es.flatMap (encodeEntry crc) := rfl
      have hsplit : (appendedBytes crc none es).take kept =
          tombHeader ++ (es.flatMap (encodeEntry crc)).take (kept - tombHeaderSize) := by
        rw [hbytes, List.take_append, length_tombHeader, List.take_of_length_le (by simp; omega)]
      refine ⟨(kept - tombHeaderSize) / tombstoneEntrySize, _,
        by rw [Option.getD_none, List.nil_append, hsplit]; exact load_header _, ?_, fun k => ?_⟩
      · intro hall
        rw [Nat.le_div_iff_mul_le hpos]
        omega
      · rw [decodeCells_take hpos length_encodeEntry decodeEntry_encodeEntry]
        exact lookup_insertAll _
  | some data =>
    have hbytes : appendedBytes crc (some data) es = es.flatMap (encodeEntry crc) := rfl
    refine ⟨kept / tombstoneEntrySize, _, load_behind hload haligned, ?_, fun k => ?_⟩
    · intro hall
      rw [hbytes, length_cells length_encodeEntry] at hall
      exact (Nat.le_div_iff_mul_le hpos).mpr hall
    · rw [hbytes, decodeCells_take hpos length_encodeEntry decodeEntry_encodeEntry]
      exact lookup_insertAll _

/-! ### The log in memory -/

variable {log : TombstoneLog} {floor : UInt32} {isProtected : TxKey → Bool} {key : TxKey}

theorem lookup_keepOnly {keep : TxKey → TombValue → Bool} :
    (log.keepOnly keep).lookup k = some v ↔ log.lookup k = some v ∧ keep k v :=
  lookup_retain

theorem lookup_gc : (log.gc retention floor isProtected).lookup k = some v ↔
    log.lookup k = some v ∧ (expired v.height retention floor → isProtected k) := by
  rw [gc, lookup_keepOnly]
  cases expired v.height retention floor <;> simp

def Current (log : TombstoneLog) : Prop :=
  ∀ e ∈ listing log.index, newest e.1 (some e.2) log.pending = some e.2

instance : Decidable log.Current := inferInstanceAs (Decidable (∀ _ ∈ _, _))

theorem Current.newest_eq (h : log.Current) (hk : log.lookup k = some v) :
    newest k (some v) log.pending = some v :=
  h (k, v) (mem_listing.mpr hk)

/-- Persisting now appends the buffered entries to the file. -/
def appends (log : TombstoneLog) (retention floor : UInt32) (isProtected : TxKey → Bool) : Bool :=
  !(log.gc retention floor isProtected).needsCompaction && log.pending ≠ []

/-- An append lines up with the cells of the file and leaves no old entry behind a newer one. -/
def CleanAppend (log : TombstoneLog) (file : Option (List UInt8)) (retention floor : UInt32)
    (isProtected : TxKey → Bool) : Prop :=
  log.appends retention floor isProtected → Aligned file ∧ log.Current

instance : Decidable (log.CleanAppend file retention floor isProtected) :=
  inferInstanceAs (Decidable (_ → _))

structure Backed (crc : List UInt8 → UInt32) (file : Option (List UInt8)) (log : TombstoneLog) :
    Prop where
  loads : ∃ loaded, load crc file = .ok loaded
  saved : ∀ k v, log.lookup k = some v → Holds crc file k v ∨ (k, v) ∈ log.pending

theorem backed_of_load (h : load crc file = .ok loaded) : Backed crc file loaded :=
  ⟨⟨loaded, h⟩, fun _ _ hk => .inl ⟨loaded, h, hk⟩⟩

theorem pending_of_load (h : load crc file = .ok loaded) : loaded.pending = [] := by
  cases file with
  | none => rw [← Except.ok.inj h]
  | some data =>
    rw [load] at h
    split_ifs at h
    · rw [← Except.ok.inj h]
    dsimp only at h
    split_ifs at h
    rw [← Except.ok.inj h]

theorem Backed.record (h : Backed crc file log) (key : TxKey) (generation height : UInt32)
    (cause : TombstoneCause) : Backed crc file (log.record key generation height cause) := by
  refine ⟨h.loads, fun k v hk => ?_⟩
  by_cases heq : k = key
  · subst heq
    have hnew : some _ = some v := (AList.lookup_insert _).symm.trans hk
    rw [← Option.some.inj hnew]
    exact .inr (List.mem_append_right _ List.mem_cons_self)
  · have hold : log.lookup k = some v := (AList.lookup_insert_ne heq).symm.trans hk
    exact (h.saved k v hold).imp_right (List.mem_append_left _)

theorem lookup_clear : (log.clear key).lookup k = some v ↔ k ≠ key ∧ log.lookup k = some v := by
  unfold clear
  split
  case h_1 habsent =>
    refine (and_iff_right_of_imp ?_).symm
    rintro hk rfl
    exact absurd (habsent.symm.trans hk) nofun
  case h_2 =>
    by_cases hne : k = key
    · subst hne
      exact iff_of_false (fun h => absurd ((AList.lookup_erase _ _).symm.trans h) nofun)
        fun h => h.1 rfl
    · rw [and_iff_right hne]
      exact Eq.congr_left (AList.lookup_erase_ne hne)

theorem mem_pending_clear (hne : e.1 ≠ key) : e ∈ (log.clear key).pending ↔ e ∈ log.pending := by
  unfold clear
  split
  · rfl
  · simp [hne]

theorem Backed.clear (h : Backed crc file log) (key : TxKey) :
    Backed crc file (log.clear key) := by
  refine ⟨h.loads, fun k v hk => ?_⟩
  obtain ⟨hne, hold⟩ := lookup_clear.mp hk
  exact (h.saved k v hold).imp_right (mem_pending_clear (e := (k, v)) hne).mpr

theorem Backed.keepOnly (h : Backed crc file log) (keep : TxKey → TombValue → Bool) :
    Backed crc file (log.keepOnly keep) :=
  ⟨h.loads, fun k v hk => h.saved k v (lookup_keepOnly.mp hk).1⟩

theorem lookup_persist (k : TxKey) :
    (log.persist crc retention floor isProtected file).2.lookup k =
      (log.gc retention floor isProtected).lookup k := by
  unfold TombstoneLog.persist
  dsimp only
  split_ifs <;> rfl

section

variable (h : Backed crc file log) (hclean : log.CleanAppend file retention floor isProtected)
include h hclean

/-- After `persist` the file has every tombstone of the index, and none of them is still
buffered. -/
theorem Backed.persist :
    let out := log.persist crc retention floor isProtected file
    (∃ loaded, load crc out.1 = .ok loaded) ∧
      ∀ k v, out.2.lookup k = some v → (k, v) ∉ out.2.pending ∧ Holds crc out.1 k v := by
  have hgc : Backed crc file (log.gc retention floor isProtected) := h.keepOnly _
  have hcur : ∀ k v, (log.gc retention floor isProtected).lookup k = some v →
      log.lookup k = some v := fun k v hk => (lookup_gc.mp hk).1
  unfold TombstoneLog.persist
  dsimp only
  split_ifs with hcompact hempty
  · refine ⟨⟨_, load_header _⟩, fun k v hk => ⟨?_, holds_writeAllAtomic hk⟩⟩
    have hwritten : (insertAll ∅ (listing (log.gc retention floor isProtected).index)).lookup k =
        some v := (lookup_insertAll _).trans (newest_listing hk)
    simp [hwritten]
  · refine ⟨h.loads, fun k v hk => ⟨by simp [hempty], ?_⟩⟩
    refine (hgc.saved k v hk).resolve_right ?_
    simp [hempty]
  · obtain ⟨haligned, hcurrent⟩ := hclean (by
      have hpending : log.pending ≠ [] := hempty
      simp [appends, hcompact, hpending])
    obtain ⟨loaded, hload⟩ := h.loads
    obtain ⟨n, loaded', hload', hall, hlook⟩ :=
      load_append log.pending hload haligned (appendedBytes crc file log.pending).length
    rw [List.take_length] at hload'
    rw [List.take_of_length_le (hall le_rfl)] at hlook
    refine ⟨⟨loaded', hload'⟩, fun k v hk => ⟨nofun, loaded', hload', ?_⟩⟩
    have hnew := hcurrent.newest_eq (hcur k v hk)
    rw [hlook]
    rcases h.saved k v (hcur k v hk) with ⟨l, hl, hk'⟩ | hmem
    · rw [hload] at hl
      rw [Except.ok.inj hl, hk', hnew]
    · rw [newest_of_mem (some v) hmem, hnew]

/-- A crash inside `persist` leaves a file that loads, and that still has the tombstones which were
in it for good. -/
theorem Backed.interrupted (replaced : Bool) (kept : Nat) :
    (∃ loaded, load crc (log.interrupted crc retention floor isProtected replaced kept file) =
        .ok loaded) ∧
      ∀ k v, log.lookup k = some v → (expired v.height retention floor → isProtected k) →
        (k, v) ∉ log.pending → Holds crc file k v →
        Holds crc (log.interrupted crc retention floor isProtected replaced kept file) k v := by
  unfold TombstoneLog.interrupted
  dsimp only
  split_ifs with hcompact hreplaced hempty
  · exact ⟨⟨_, load_header _⟩,
      fun k v hk hkeep _ _ => holds_writeAllAtomic (lookup_gc.mpr ⟨hk, hkeep⟩)⟩
  · exact ⟨h.loads, fun k v _ _ _ hold => hold⟩
  · exact ⟨h.loads, fun k v _ _ _ hold => hold⟩
  · obtain ⟨haligned, hcurrent⟩ := hclean (by
      have hpending : log.pending ≠ [] := hempty
      simp [appends, hcompact, hpending])
    obtain ⟨loaded, hload⟩ := h.loads
    obtain ⟨n, loaded', hload', -, hlook⟩ := load_append log.pending hload haligned kept
    refine ⟨⟨loaded', hload'⟩, fun k v hk _ hnot ⟨l, hl, hk'⟩ => ⟨loaded', hload', ?_⟩⟩
    -- Nothing is buffered for the key, so no part of the append can touch it.
    have habsent := (eq_or_mem_of_newest (hcurrent.newest_eq hk)).resolve_right hnot
    rw [hload] at hl
    rw [hlook, Except.ok.inj hl, hk']
    exact newest_of_absent fun e he => habsent.2 e (List.mem_of_mem_take he)

end

def SameAnswers (k : TxKey) (log log' : TombstoneLog) : Prop :=
  ∀ generation, log.atOrAhead k generation = log'.atOrAhead k generation ∧
    log.blocksHealApply k generation = log'.blocksHealApply k generation

theorem sameAnswers_of_lookup {log' : TombstoneLog} (h : log.lookup k = log'.lookup k) :
    SameAnswers k log log' := by
  intro generation
  rw [atOrAhead, atOrAhead, blocksHealApply, blocksHealApply, h]
  exact ⟨rfl, rfl⟩

end TombstoneLog

/-! ### Runs -/

/-- The input neither replaces nor removes the tombstone. -/
def TombstoneInput.Leaves (retention : UInt32) (k : TxKey) (v : TombValue) :
    TombstoneInput → Prop
  | .record key .. => key ≠ k
  | .clear key => key ≠ k
  | .reconcileAgainstLive isLive => ¬ isLive k
  | .persist floor isProtected => expired v.height retention floor → isProtected k
  | .crash => True
  | .crashInPersist floor isProtected .. => expired v.height retention floor → isProtected k

namespace TombstoneStore

variable {s : TombstoneStore} {input : TombstoneInput}

def CleanAppends (retention : UInt32) (s : TombstoneStore) : TombstoneInput → Prop
  | .persist floor isProtected | .crashInPersist floor isProtected .. =>
    ∀ log ∈ s.log, log.CleanAppend s.file retention floor isProtected
  | _ => True

instance : ∀ input, Decidable (CleanAppends retention s input)
  | .persist .. | .crashInPersist .. => inferInstanceAs (Decidable (∀ _ ∈ _, _))
  | .record .. | .clear _ | .reconcileAgainstLive _ | .crash => .isTrue trivial

/-- There is a log in memory, and the file stands behind it. -/
def Sound (crc : List UInt8 → UInt32) (s : TombstoneStore) : Prop :=
  ∃ log, s.log = some log ∧ log.Backed crc s.file

theorem sound_reload (h : ∃ loaded, TombstoneLog.load crc file = .ok loaded) :
    Sound crc (reload crc file) := by
  obtain ⟨loaded, hload⟩ := h
  exact ⟨loaded, by simp [reload, hload, Except.toOption], TombstoneLog.backed_of_load hload⟩

theorem Sound.step (h : Sound crc s) (hclean : CleanAppends retention s input) :
    Sound crc (s.step crc retention input) := by
  obtain ⟨log, hlog, hback⟩ := h
  unfold TombstoneStore.step
  rw [hlog]
  cases input with
  | record key generation height cause => exact ⟨_, rfl, hback.record ..⟩
  | clear key => exact ⟨_, rfl, hback.clear key⟩
  | reconcileAgainstLive isLive => exact ⟨_, rfl, hback.keepOnly _⟩
  | persist floor isProtected =>
    obtain ⟨hloads, hall⟩ := hback.persist (hclean log hlog)
    exact ⟨_, rfl, hloads, fun k v hk => .inl (hall k v hk).2⟩
  | crash => exact sound_reload hback.loads
  | crashInPersist floor isProtected replaced kept =>
    exact sound_reload (hback.interrupted (hclean log hlog) replaced kept).1

def Kept (crc : List UInt8 → UInt32) (k : TxKey) (v : TombValue) (s : TombstoneStore) : Prop :=
  ∃ log, s.log = some log ∧ log.lookup k = some v ∧ (k, v) ∉ log.pending ∧
    TombstoneLog.Holds crc s.file k v

theorem kept_reload (h : TombstoneLog.Holds crc file k v) : Kept crc k v (reload crc file) := by
  obtain ⟨loaded, hload, hk⟩ := h
  refine ⟨loaded, by simp [reload, hload, Except.toOption], hk, ?_, loaded, hload, hk⟩
  rw [TombstoneLog.pending_of_load hload]
  exact List.not_mem_nil

/-- Persisting keeps what is in the index afterwards. -/
theorem Sound.kept_persist {floor : UInt32} {isProtected : TxKey → Bool} {log : TombstoneLog}
    (h : Sound crc s) (hclean : CleanAppends retention s (.persist floor isProtected))
    (hlog : (s.step crc retention (.persist floor isProtected)).log = some log)
    (hk : log.lookup k = some v) :
    Kept crc k v (s.step crc retention (.persist floor isProtected)) := by
  obtain ⟨before, hbefore, hback⟩ := h
  have hall := (hback.persist (hclean before hbefore)).2
  unfold TombstoneStore.step at hlog ⊢
  rw [hbefore] at hlog ⊢
  obtain rfl := Option.some.inj hlog
  obtain ⟨hnot, hholds⟩ := hall k v hk
  exact ⟨_, rfl, hk, hnot, hholds⟩

theorem Kept.step (h : Kept crc k v s) (hsound : Sound crc s)
    (hclean : CleanAppends retention s input) (hleaves : input.Leaves retention k v) :
    Kept crc k v (s.step crc retention input) := by
  obtain ⟨log, hlog, hk, hnot, hholds⟩ := h
  obtain ⟨log', hlog', hback⟩ := hsound
  obtain rfl : log = log' := Option.some.inj (hlog.symm.trans hlog')
  unfold TombstoneStore.step
  rw [hlog]
  cases input with
  | persist floor isProtected =>
    have hafter : (log.persist crc retention floor isProtected s.file).2.lookup k = some v := by
      rw [TombstoneLog.lookup_persist, TombstoneLog.lookup_gc]
      exact ⟨hk, hleaves⟩
    exact ⟨_, rfl, hafter, (hback.persist (hclean log hlog)).2 k v hafter⟩
  | record key generation height cause =>
    refine ⟨_, rfl, (AList.lookup_insert_ne (Ne.symm hleaves)).trans hk, ?_, hholds⟩
    intro hmem
    rcases List.mem_append.mp hmem with hmem | hmem
    · exact hnot hmem
    · exact hleaves (congrArg Prod.fst (List.mem_singleton.mp hmem)).symm
  | clear key =>
    have hne : k ≠ key := Ne.symm hleaves
    refine ⟨_, rfl, TombstoneLog.lookup_clear.mpr ⟨hne, hk⟩, ?_, hholds⟩
    rwa [TombstoneLog.mem_pending_clear (e := (k, v)) hne]
  | reconcileAgainstLive isLive =>
    have hlive : !isLive k := by
      have : ¬ isLive k := hleaves
      simpa using this
    exact ⟨_, rfl, TombstoneLog.lookup_keepOnly.mpr ⟨hk, hlive⟩, hnot, hholds⟩
  | crash => exact kept_reload hholds
  | crashInPersist floor isProtected replaced kept =>
    have hall := (hback.interrupted (hclean log hlog) replaced kept).2
    exact kept_reload (hall k v hk hleaves hnot hholds)

/-- What was persisted answers for its key as it did then, in the log in memory and in one that is
loaded after a crash, for as long as no input touches the tombstone. -/
def TombstonesDurable (crc : List UInt8 → UInt32) (retention : UInt32)
    (inputs : List TombstoneInput) : Prop :=
  ∀ front floor isProtected back log k v,
    inputs = front ++ .persist floor isProtected :: back →
    (run (step crc retention) {} (front ++ [.persist floor isProtected])).log = some log →
    log.lookup k = some v → (∀ input ∈ back, input.Leaves retention k v) →
    ∃ now loaded, (run (step crc retention) {} inputs).log = some now ∧
      TombstoneLog.load crc (run (step crc retention) {} inputs).file = .ok loaded ∧
      TombstoneLog.SameAnswers k now log ∧ TombstoneLog.SameAnswers k loaded log

theorem sound_empty : Sound crc {} :=
  ⟨{}, rfl, ⟨{}, rfl⟩, fun _ _ hk => absurd hk nofun⟩

theorem Kept.run {inputs : List TombstoneInput} (h : Kept crc k v s) (hsound : Sound crc s)
    (hclean : Guarded (TombstoneStore.step crc retention) (CleanAppends retention) s inputs)
    (hleaves : ∀ input ∈ inputs, input.Leaves retention k v) :
    Kept crc k v (Foundations.run (TombstoneStore.step crc retention) s inputs) := by
  induction inputs generalizing s with
  | nil => exact h
  | cons input inputs ih =>
    have hstep := h.step hsound hclean.1 (hleaves input List.mem_cons_self)
    exact ih hstep (hsound.step hclean.1) hclean.2
      fun i hi => hleaves i (List.mem_cons_of_mem input hi)

theorem tombstonesDurable_of_cleanAppends (crc : List UInt8 → UInt32) (retention : UInt32)
    (inputs : List TombstoneInput)
    (hclean : Guarded (step crc retention) (CleanAppends retention) {} inputs) :
    TombstonesDurable crc retention inputs := by
  intro front floor isProtected back log k v hinputs hlog hk hleaves
  have hsplit : inputs = (front ++ [.persist floor isProtected]) ++ back := by simp [hinputs]
  rw [hsplit, guarded_append, guarded_append] at hclean
  obtain ⟨⟨hfront, hpersist, -⟩, hback⟩ := hclean
  have hsound := hfront.invariant (fun _ _ h hc => Sound.step h hc) sound_empty
  rw [run_append] at hlog hback
  have hkept := hsound.kept_persist hpersist hlog hk
  obtain ⟨now, hnow, hlook, -, loaded, hload, hlook'⟩ :=
    hkept.run (hsound.step hpersist) hback hleaves
  rw [hsplit, run_append, run_append]
  exact ⟨now, loaded, hnow, hload, TombstoneLog.sameAnswers_of_lookup (hlook.trans hk.symm),
    TombstoneLog.sameAnswers_of_lookup (hlook'.trans hk.symm)⟩

def tombKey (byte : UInt8) : TxKey := ⟨.replicate 32 byte⟩

/-- An append is torn, and the file is rewritten before the next one. -/
theorem durable_over_torn_append :
    let recordOf byte := TombstoneInput.record (tombKey byte) 3 10 .dah
    let inputs := [recordOf 1, .persist 20 fun _ => false, recordOf 2,
      .crashInPersist 20 (fun _ => false) false 30, recordOf 3, .clear (tombKey 1),
      .persist 20 fun _ => false, recordOf 4, .persist 20 fun _ => false]
    TombstonesDurable (fun _ => 0) 100 inputs ∧
      (run (step (fun _ => 0) 100) {} inputs).file.map List.length = some (8 + 2 * 48) := by
  intro recordOf inputs
  exact ⟨tombstonesDurable_of_cleanAppends _ _ _ (by decide +kernel), by decide +kernel⟩

/-- An entry behind half a header does not load: what stands for the version is a part of the
entry's key. -/
theorem load_behind_torn_header (crc : List UInt8 → UInt32) (v : TombValue) :
    TombstoneLog.load crc (some (tombHeader.take 4 ++ encodeEntry crc (tombKey 0, v))) =
      .error (.badHeader tombMagic 0) := by
  let file := tombHeader.take 4 ++ encodeEntry crc (tombKey 0, v)
  have hlen : ¬ file.length < tombHeaderSize := by
    rw [List.length_append, length_encodeEntry]
    decide
  have hmagic : leAt 4 file 0 = tombMagic := by
    rw [leAt_append_left (by decide)]
    decide
  have hversion : leAt 4 file 4 = 0 := by
    have hkey : leAt 4 (tombKey 0).txid.toList 0 = 0 := by decide
    exact hkey
  rw [TombstoneLog.load, if_neg hlen]
  rw [hmagic, hversion, if_pos (by decide)]

/-- A crash cuts off the header of a new file. The next append goes behind what is left of it, and
after that the log cannot be loaded, whatever the checksum. -/
theorem torn_header_not_durable :
    let recordOf byte := TombstoneInput.record (tombKey byte) 3 10 .dah
    ∀ crc, ¬ TombstonesDurable crc 100
      [recordOf 0, .crashInPersist 20 (fun _ => false) false 4, recordOf 0,
        .persist 20 fun _ => false] := by
  intro recordOf crc hdurable
  obtain ⟨now, loaded, -, hload, -⟩ :=
    hdurable [recordOf 0, .crashInPersist 20 (fun _ => false) false 4, recordOf 0] 20
      (fun _ => false) [] _ (tombKey 0) ⟨3, 10, 0⟩ rfl rfl rfl nofun
  exact absurd ((load_behind_torn_header crc ⟨3, 10, 0⟩).symm.trans hload) nofun

/-- Two deletes of one key are buffered when the file is rewritten. The rewrite drops the newer one
from the buffer and keeps the older one, which the next append then puts behind it. -/
theorem reappended_entry_not_durable :
    let recordOf byte generation := TombstoneInput.record (tombKey byte) generation 10 .dah
    ∀ crc, ¬ TombstonesDurable crc 100
      [recordOf 1 3, recordOf 1 4, recordOf 2 1, .clear (tombKey 2), .persist 20 fun _ => false,
        .persist 20 fun _ => false] := by
  intro recordOf crc hdurable
  obtain ⟨now, loaded, -, hload, -, hanswers⟩ :=
    hdurable [recordOf 1 3, recordOf 1 4, recordOf 2 1, .clear (tombKey 2)] 20 (fun _ => false)
      [.persist 20 fun _ => false] _ (tombKey 1) ⟨4, 10, 0⟩ rfl rfl rfl (by
        simp [TombstoneInput.Leaves, expired])
  let entries : List (TxKey × TombValue) := [(tombKey 1, ⟨4, 10, 0⟩), (tombKey 1, ⟨3, 10, 0⟩)]
  have hfile : TombstoneLog.load crc (some (tombHeader ++ entries.flatMap (encodeEntry crc))) =
      .ok loaded := hload
  rw [TombstoneLog.load_header,
    decodeCells_flatMap (by decide) length_encodeEntry decodeEntry_encodeEntry] at hfile
  have hahead := (hanswers 4).1
  rw [← Except.ok.inj hfile] at hahead
  exact absurd hahead (by decide)

end TombstoneStore

end TeraSlab.Recovery
