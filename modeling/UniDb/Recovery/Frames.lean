import UniDb.Lib.LittleEndian

/-!
# Segment files of the write-ahead log (`wal.rs`)

Records as bytes, the length-prefixed frames of a segment file, the scan that stops at the first bad
frame, and `Wal::open`, which appends at the physical end of the last file. `scanFile_appends`: what
is appended is read back if the crash cut the file at the end of a frame, or if the first record
goes to a new segment.
-/

namespace UniDb.Segments

open List

@[ext] structure WalRecord where
  lsn : UInt64
  prevLsn : UInt64
  miniTxnId : UInt64
  recType : UInt8
  pageId : UInt32
  slot : UInt16
  redo : List UInt8
  undo : List UInt8
deriving DecidableEq, Repr

/-! ## Records -/

def fixedHdr : Nat := 41

-- `crc32fast::hash`
variable (crc : List UInt8 → UInt32)

def payload (r : WalRecord) : List UInt8 :=
  leBytes 8 r.lsn.toNat ++ leBytes 8 r.prevLsn.toNat ++ leBytes 8 r.miniTxnId.toNat ++
    [r.recType, 0, 0] ++ leBytes 4 r.pageId.toNat ++ leBytes 2 r.slot.toNat ++
    leBytes 4 r.redo.length ++ leBytes 4 r.undo.length ++ (r.redo ++ r.undo)

def encodeRecord (r : WalRecord) : List UInt8 := payload r ++ leBytes 4 (crc (payload r)).toNat

def field (buf : List UInt8) (i n : Nat) : Nat := ofLe ((buf.drop i).take n)

def decodeRecord (buf : List UInt8) : Option WalRecord :=
  if buf.length < fixedHdr + 4 then none
  else
    let redoLen := field buf 33 4
    let undoLen := field buf 37 4
    let payloadLen := fixedHdr + redoLen + undoLen
    if buf.length < payloadLen + 4 then none
    else if field buf payloadLen 4 ≠ (crc (buf.take payloadLen)).toNat then none
    else some {
      lsn := .ofNat (field buf 0 8)
      prevLsn := .ofNat (field buf 8 8)
      miniTxnId := .ofNat (field buf 16 8)
      recType := buf.getD 24 0
      pageId := .ofNat (field buf 27 4)
      slot := .ofNat (field buf 31 2)
      redo := (buf.drop fixedHdr).take redoLen
      undo := (buf.drop (fixedHdr + redoLen)).take undoLen }

/-- The lengths of the record are 32-bit numbers. -/
def WalRecord.Fits (r : WalRecord) : Prop := fixedHdr + r.redo.length + r.undo.length + 4 < 256 ^ 4

instance (r : WalRecord) : Decidable r.Fits := inferInstanceAs (Decidable (_ < _))

variable {crc} {r : WalRecord} {rs : List WalRecord} {rest : List UInt8}

lemma length_payload : (payload r).length = fixedHdr + r.redo.length + r.undo.length := by
  simp [payload, fixedHdr]
  omega

lemma length_encodeRecord :
    (encodeRecord crc r).length = fixedHdr + r.redo.length + r.undo.length + 4 := by
  simp [encodeRecord, length_payload]

lemma decodeRecord_encodeRecord (h : r.Fits) : decodeRecord crc (encodeRecord crc r) = some r := by
  have hredo : field (encodeRecord crc r) 33 4 = r.redo.length :=
    ofLe_leBytes_of_lt (n := 4) (by rw [WalRecord.Fits] at h; omega)
  have hundo : field (encodeRecord crc r) 37 4 = r.undo.length :=
    ofLe_leBytes_of_lt (n := 4) (by rw [WalRecord.Fits] at h; omega)
  have hbody : (encodeRecord crc r).drop fixedHdr =
      r.redo ++ (r.undo ++ leBytes 4 (crc (payload r)).toNat) := by
    rw [← append_assoc]
    rfl
  have hcrc : field (encodeRecord crc r) (fixedHdr + r.redo.length + r.undo.length) 4 =
      (crc (payload r)).toNat := by
    rw [field, encodeRecord, ← length_payload, drop_left, take_of_length_le (by simp),
      ofLe_leBytes_of_lt (crc (payload r)).toNat_lt]
  have hpayload : (encodeRecord crc r).take (fixedHdr + r.redo.length + r.undo.length) =
      payload r := by
    rw [encodeRecord, ← length_payload, take_left]
  have hlen := @length_encodeRecord crc r
  have h64 (x : UInt64) : UInt64.ofNat (ofLe (leBytes 8 x.toNat)) = x := by
    rw [ofLe_leBytes_of_lt x.toNat_lt, UInt64.ofNat_toNat]
  have h32 (x : UInt32) : UInt32.ofNat (ofLe (leBytes 4 x.toNat)) = x := by
    rw [ofLe_leBytes_of_lt x.toNat_lt, UInt32.ofNat_toNat]
  have h16 (x : UInt16) : UInt16.ofNat (ofLe (leBytes 2 x.toNat)) = x := by
    rw [ofLe_leBytes_of_lt x.toNat_lt, UInt16.ofNat_toNat]
  simp only [decodeRecord, hredo, hundo, hcrc, hpayload]
  rw [if_neg (by omega), if_neg (by omega), if_neg (by simp)]
  -- the fixed part is read at literal positions, the two payloads after it
  refine congrArg some (WalRecord.ext (h64 _) (h64 _) (h64 _) rfl (h32 _) (h16 _) ?_ ?_)
  · rw [hbody, take_left]
  · simp only
    rw [← drop_drop, hbody, drop_left, take_left]

/-! ## Frames -/

def frame (crc : List UInt8 → UInt32) (r : WalRecord) : List UInt8 :=
  leBytes 4 (encodeRecord crc r).length ++ encodeRecord crc r

def frames (crc : List UInt8 → UInt32) (rs : List WalRecord) : List UInt8 := rs.flatMap (frame crc)

/-- The loop of `scan_segment_file`: it stops at a short or corrupt frame. -/
def scanFrames (crc : List UInt8 → UInt32) (bytes : List UInt8) : List WalRecord :=
  if _h : bytes.length < 4 then []
  else
    let len := ofLe (bytes.take 4)
    let body := bytes.drop 4
    if body.length < len then []
    else
      match decodeRecord crc (body.take len) with
      | none => []
      | some r => r :: scanFrames crc (body.drop len)
termination_by bytes.length
decreasing_by grind

lemma scanFrames_frame (h : r.Fits) :
    scanFrames crc (frame crc r ++ rest) = r :: scanFrames crc rest := by
  have hlen : ofLe (leBytes 4 (encodeRecord crc r).length) = (encodeRecord crc r).length :=
    ofLe_leBytes_of_lt (by rw [length_encodeRecord]; exact h)
  have htake : (frame crc r ++ rest).take 4 = leBytes 4 (encodeRecord crc r).length := rfl
  have hdrop : (frame crc r ++ rest).drop 4 = encodeRecord crc r ++ rest := rfl
  rw [scanFrames, dif_neg (by simp [frame])]
  simp only [htake, hdrop, hlen]
  rw [if_neg (by simp), take_left, drop_left, decodeRecord_encodeRecord h]

lemma scanFrames_frames (h : ∀ r ∈ rs, r.Fits) : scanFrames crc (frames crc rs) = rs := by
  induction rs with
  | nil => rw [scanFrames]; rfl
  | cons r rs ih =>
    rw [frames, flatMap_cons, scanFrames_frame (h r (.head _))]
    exact congrArg _ (ih fun r hr => h r (.tail _ hr))

/-! ## Segment files -/

def segMagic : Nat := 0x47455357

def segHdr : Nat := 16

def segmentHeader (base : UInt64) : List UInt8 :=
  leBytes 4 segMagic ++ leBytes 2 1 ++ [0, 0] ++ leBytes 8 base.toNat

/-- A segment file with whole frames only. -/
def segmentFile (crc : List UInt8 → UInt32) (base : UInt64) (rs : List WalRecord) : List UInt8 :=
  segmentHeader base ++ frames crc rs

def scanSegment (crc : List UInt8 → UInt32) (file : List UInt8) : List WalRecord :=
  if file.length < segHdr then []
  else if ofLe (file.take 4) ≠ segMagic then []
  else scanFrames crc (file.drop segHdr)

lemma scanSegment_header (base : UInt64) (bytes : List UInt8) :
    scanSegment crc (segmentHeader base ++ bytes) = scanFrames crc bytes := by
  have hmagic : ofLe ((segmentHeader base ++ bytes).take 4) = segMagic :=
    ofLe_leBytes_of_lt (n := 4) (by decide)
  have hdrop : (segmentHeader base ++ bytes).drop segHdr = bytes := rfl
  rw [scanSegment, if_neg (by simp [segmentHeader, segHdr]; omega), if_neg (by simp [hmagic]),
    hdrop]

lemma scanSegment_segmentFile {base : UInt64} (h : ∀ r ∈ rs, r.Fits) :
    scanSegment crc (segmentFile crc base rs) = rs := by
  rw [segmentFile, scanSegment_header, scanFrames_frames h]

/-- The segment files of a log, the active one last. -/
structure Wal where
  sealed : List (List UInt8)
  active : List UInt8

section
variable (crc : List UInt8 → UInt32) (size : Nat) (w : Wal) (r : WalRecord)

def Wal.scanFile : List WalRecord :=
  w.sealed.flatMap (scanSegment crc) ++ scanSegment crc w.active

/-- Does `write_framed_locked` rotate before this record? -/
def Wal.rotates : Prop :=
  segHdr < w.active.length ∧ size < w.active.length + (frame crc r).length

instance {size : Nat} {w : Wal} : Decidable (w.rotates crc size r) :=
  inferInstanceAs (Decidable (_ ∧ _))

/-- `write_framed_locked`, at the physical end of the active file. -/
def Wal.append : Wal :=
  if w.rotates crc size r then ⟨w.sealed ++ [w.active], segmentHeader r.lsn ++ frame crc r⟩
  else { w with active := w.active ++ frame crc r }

def Wal.appends (rs : List WalRecord) : Wal :=
  rs.foldl (Wal.append crc size) w

end

variable {size : Nat} {w : Wal}

def Wal.Whole (crc : List UInt8 → UInt32) (w : Wal) : Prop :=
  ∃ base rs, (∀ r ∈ rs, r.Fits) ∧ w.active = segmentFile crc base rs

/-- A record that goes to a new segment is read back, whatever the old one ends in. -/
lemma Wal.append_of_rotates (hr : r.Fits) (h : w.rotates crc size r) :
    (w.append crc size r).Whole crc ∧
      (w.append crc size r).scanFile crc = w.scanFile crc ++ [r] := by
  have hnew : segmentHeader r.lsn ++ frame crc r = segmentFile crc r.lsn [r] := by
    simp [segmentFile, frames]
  have hfits : ∀ r' ∈ [r], r'.Fits := by simpa using hr
  rw [append, if_pos h, hnew]
  refine ⟨⟨r.lsn, [r], hfits, rfl⟩, ?_⟩
  rw [scanFile, scanSegment_segmentFile hfits]
  simp [scanFile]

lemma Wal.Whole.append (hw : w.Whole crc) (hr : r.Fits) : (w.append crc size r).Whole crc ∧
      (w.append crc size r).scanFile crc = w.scanFile crc ++ [r] := by
  by_cases h : w.rotates crc size r
  · exact append_of_rotates hr h
  · obtain ⟨base, rs, hrs, hactive⟩ := hw
    have hfile : w.active ++ frame crc r = segmentFile crc base (rs ++ [r]) := by
      simp [hactive, segmentFile, frames]
    have hfits : ∀ r' ∈ rs ++ [r], r'.Fits := fun r' hr' => by
      rcases mem_append.1 hr' with hr' | hr'
      · exact hrs r' hr'
      · exact mem_singleton.1 hr' ▸ hr
    rw [Wal.append, if_neg h, hfile]
    refine ⟨⟨base, _, hfits, rfl⟩, ?_⟩
    rw [scanFile, scanFile, scanSegment_segmentFile hfits, hactive, scanSegment_segmentFile hrs,
      append_assoc]

lemma appends_cons (hr : (w.append crc size r).scanFile crc = w.scanFile crc ++ [r])
    (hrs : ((w.append crc size r).appends crc size rs).scanFile crc =
      (w.append crc size r).scanFile crc ++ rs) :
    (w.appends crc size (r :: rs)).scanFile crc = w.scanFile crc ++ r :: rs := by
  rw [hr, append_assoc] at hrs
  exact hrs

lemma Wal.Whole.appends (hw : w.Whole crc) (hrs : ∀ r ∈ rs, r.Fits) :
    (w.appends crc size rs).scanFile crc = w.scanFile crc ++ rs := by
  induction rs generalizing w with
  | nil => simp [Wal.appends]
  | cons r rs ih =>
    obtain ⟨hw', hscan⟩ := hw.append (hrs r (.head _))
    exact appends_cons hscan (ih hw' fun r hr => hrs r (.tail _ hr))

/-- The crash cut the active file at the end of a frame, or nothing is appended to that file. -/
def Wal.Continues (crc : List UInt8 → UInt32) (size : Nat) (w : Wal) (rs : List WalRecord) : Prop :=
  w.Whole crc ∨ ∀ r ∈ rs.head?, w.rotates crc size r

/-- **Appending after a crash loses nothing** if the log continues at the end of a frame or in a new
segment. -/
theorem scanFile_appends (hrs : ∀ r ∈ rs, r.Fits) (h : w.Continues crc size rs) :
    (w.appends crc size rs).scanFile crc = w.scanFile crc ++ rs := by
  rcases h with hwhole | hrot
  · exact hwhole.appends hrs
  · cases rs with
    | nil => simp [Wal.appends]
    | cons r rs =>
      obtain ⟨hw', hscan⟩ := Wal.append_of_rotates (hrs r (.head _)) (hrot r rfl)
      exact appends_cons hscan (hw'.appends fun r hr => hrs r (.tail _ hr))

def bare (lsn : UInt64) : WalRecord := ⟨lsn, 0, 0, 1, 0, 0, [], []⟩

theorem scanFile_appends_bare :
    (Wal.appends (fun _ => 0) 100 ⟨[], segmentHeader 1⟩ [bare 1, bare 2]).scanFile (fun _ => 0) =
      (Wal.mk [] (segmentHeader 1)).scanFile (fun _ => 0) ++ [bare 1, bare 2] :=
  scanFile_appends (by decide) (.inl ⟨1, [], nofun, by simp [segmentFile, frames]⟩)

/-- A record is cut after the first byte of its length: with the frame appended next it makes a
length that reaches past the end of the file. -/
theorem scanFile_appends_lost :
    ¬∀ (crc : List UInt8 → UInt32) (size : Nat) (w : Wal) (base : UInt64) (old rs : List WalRecord),
      (∀ r ∈ old ++ rs, r.Fits) → w.active <+: segmentFile crc base old →
      (w.appends crc size rs).scanFile crc = w.scanFile crc ++ rs := by
  intro h
  let crc : List UInt8 → UInt32 := fun _ => 0
  have hscan := h crc 1000 ⟨[], segmentHeader 1 ++ [45]⟩ 1 [bare 1] [bare 2] (by decide) (by decide)
  have hlost : scanFrames crc ([45] ++ frame crc (bare 2)) = [] := by
    rw [scanFrames, dif_neg (by decide), if_pos (by decide)]
  have hafter : Wal.appends crc 1000 ⟨[], segmentHeader 1 ++ [45]⟩ [bare 2] =
      ⟨[], segmentHeader 1 ++ ([45] ++ frame crc (bare 2))⟩ := rfl
  rw [hafter, Wal.scanFile, scanSegment_header, hlost] at hscan
  exact absurd (congrArg List.length hscan) (by simp [Wal.scanFile])

lemma scanFrames_torn {n : Nat} (hr : r.Fits) (hn : n < (frame crc r).length) :
    scanFrames crc ((frame crc r).take n) = [] := by
  have hlen : (frame crc r).length = 4 + (encodeRecord crc r).length := by simp [frame]
  have hcut : ((frame crc r).take n).length = n := length_take_of_le hn.le
  rw [scanFrames]
  split
  · rfl
  · have htake : ((frame crc r).take n).take 4 = leBytes 4 (encodeRecord crc r).length := by
      rw [take_take, Nat.min_eq_left (by omega)]
      rfl
    rw [htake, ofLe_leBytes_of_lt (by rw [length_encodeRecord]; exact hr)]
    exact if_pos (by rw [length_drop]; omega)

/-- **A segment cut at any byte** behind its header is read up to its last whole record. -/
theorem scanSegment_cut (base : UInt64) (n : Nat) (hrs : ∀ r ∈ rs, r.Fits) :
    ∃ whole lost, rs = whole ++ lost ∧
      scanSegment crc (segmentHeader base ++ (frames crc rs).take n) = whole ∧
      ∀ r ∈ lost.head?, n < (frames crc (whole ++ [r])).length := by
  rw [scanSegment_header]
  induction rs generalizing n with
  | nil => exact ⟨[], [], rfl, by rw [frames, flatMap_nil, take_nil, scanFrames]; rfl, nofun⟩
  | cons r rs ih =>
    have hr := hrs r (.head _)
    rw [frames, flatMap_cons]
    by_cases hn : n < (frame crc r).length
    · rw [take_append_of_le_length hn.le]
      exact ⟨[], r :: rs, rfl, scanFrames_torn hr hn, by simpa [frames] using hn⟩
    · obtain ⟨k, rfl⟩ := Nat.exists_eq_add_of_le (not_lt.1 hn)
      obtain ⟨whole, lost, rfl, hscan, hlost⟩ := ih k fun r hr => hrs r (.tail _ hr)
      rw [take_length_add_append, scanFrames_frame hr]
      refine ⟨r :: whole, lost, rfl, congrArg _ hscan, fun r' hr' => ?_⟩
      have hlt := hlost r' hr'
      rw [cons_append, frames, flatMap_cons, length_append]
      exact Nat.add_lt_add_left hlt _

theorem scanSegment_cut_bare : ∃ whole lost, [bare 1, bare 2] = whole ++ lost ∧ scanSegment
    (fun _ => 0) (segmentHeader 1 ++ (frames (fun _ => 0) [bare 1, bare 2]).take 60) = whole :=
  have ⟨whole, lost, hsplit, hscan, _⟩ := scanSegment_cut 1 60 (by decide)
  ⟨whole, lost, hsplit, hscan⟩

end UniDb.Segments
