import UniDb.Sql.Codec
import UniDb.Sql.Select

/-!
# Decode push-down over encoded rows (`sql/executor.rs`)

A written row is the encoding of the values of a prefix of the columns. The scan reads it through
masks (`neededMask`), through the raw integer filter (`RawFilter.passes`), or decodes it whole; this
module relates these to the values that were written.

* `decodeRowFrom_encode` and `values_short`: the decoder returns the written values, followed by the
  defaults of the later columns, exactly when no value is as long as `2 ^ 32` bytes. The length in
  front of a text is written in four bytes and a longer one wraps.
* `rawI64From_encode`: the raw probe reads what the value-level `tryRawI64At` reads.
-/

namespace UniDb.Codec

open List Nat

/-! ## Written rows -/

/-- The value can be stored in a column of the type. -/
def Matches (ty : ColumnType) : Literal → Prop
  | .null => True
  | .int n => ty = .int64 ∧ FitsSigned 8 n
  | .text _ => ty = .text
  | .bool _ => ty = .bool
  | .json _ => ty = .json
  | .vector v => ty = .vector v.length ∧ v.length < 2 ^ 32
  | .decimal v scale =>
    (∃ precision, ty = .decimal precision scale) ∧ FitsSigned 16 v ∧ scale < 2 ^ 8
  | .timestamp t => ty = .timestamp ∧ FitsSigned 8 t
  | .float _ => ty = .float
  | .uuid b => ty = .uuid ∧ b.length = 16
  | .bytea _ => ty = .bytea
  | .date d => ty = .date ∧ FitsSigned 4 d
  | .time t => ty = .time ∧ FitsSigned 8 t
  | .param _ => False

/-- A row that `encode_row` wrote for a prefix of the columns. -/
structure Written (columns : List ColumnDef) where
  values : Row
  length_le : values.length ≤ columns.length
  matching : ∀ p ∈ columns.zip values, Matches p.1.ty p.2
  size_le : (encodeRow values).length ≤ isizeMax

def Written.bytes {columns : List ColumnDef} (w : Written columns) : Slice :=
  ⟨encodeRow w.values, w.size_le⟩

/-- The bytes of a value of variable length; nothing for the others. -/
def payload : Literal → List UInt8
  | .text s | .json s => utf8 s
  | .bytea b => b
  | _ => []

/-- The length of the value can be written in four bytes. -/
def Short (v : Literal) : Prop := (payload v).length < 2 ^ 32

instance (v : Literal) : Decidable (Short v) := inferInstanceAs (Decidable (_ < _))

/-! ## Reading through masks and without decoding -/

def needColumn (ncols : Nat) (mask : List Bool × Nat) (c : Nat) : List Bool × Nat :=
  if c < ncols then (mask.1.set c true, max mask.2 c) else mask

def neededMask (cols : List Nat) (ncols : Nat) : List Bool × Nat :=
  cols.foldl (needColumn ncols) (List.replicate ncols false, 0)

/-- The width of a payload, by its tag, where it does not depend on the value. -/
def rawStride : Nat → Option Nat
  | 0 => some 0
  | 1 | 7 | 8 | 12 => some 8
  | 3 => some 1
  | 11 => some 4
  | 9 => some 16
  | 6 => some 17
  | _ => none

def rawI64From (bytes : List UInt8) (target : Nat) : Nat → Nat → List ColumnDef → Option Int
  | _, _, [] => none
  | i, pos, _ :: columns => do
    let tag ← bytes[pos]?
    if i = target then
      if tag ≠ 1 then none else (slice bytes (pos + 1) (pos + 9)).map ofLeSigned
    else rawI64From bytes target (i + 1) (pos + (1 + (← rawStride tag.toNat))) columns

def tryRawI64At (bytes : List UInt8) (target : Nat) (columns : List ColumnDef) : Option Int :=
  rawI64From bytes target 0 0 columns

def rawPasses (bytes : List UInt8) (columns : List ColumnDef) : RawFilter → Option Bool
  | [] => some true
  | (i, op, n) :: terms => do
    let lhs ← tryRawI64At bytes i columns
    if applyCmp op (Ord.compare lhs n) then rawPasses bytes columns terms else some false

def tryBuildRawFilter (e : Expr) : Option RawFilter := do
  let terms ← collectRawTerms e
  if terms.isEmpty then none else some terms

section
variable (utf8Error : List UInt8 → String) (rt : Runtime) (bytes : Slice) (columns : List ColumnDef)

def deformAt (cols : List Nat) : Except DbError Row :=
  let mask := neededMask cols columns.length
  deformRow utf8Error rt .release bytes columns mask.2 mask.1

def testBound (bound : Expr) : Except DbError Bool := do
  predicateMatches rt (some bound) columns
    (← deformAt utf8Error rt bytes columns (exprColumns columns bound))

/-- The test of the scan: the raw filter where it decides, else the predicate. -/
def scanFilter (predicate : Option Expr) : Except DbError Bool :=
  match predicate with
  | none => .ok true
  | some e =>
    let bound := bindPredicateColumns columns e
    match tryBuildRawFilter bound with
    | some terms =>
      match rawPasses bytes.1 columns terms with
      | some b => .ok b
      | none => testBound utf8Error rt bytes columns bound
    | none => testBound utf8Error rt bytes columns bound

/-- **The codec and the push-down agree** on a written row: it decodes to the written values and the
defaults of the later columns, masks read the decoder's values, and the scan filter decides as the
unbound predicate does on the decoded row. -/
structure Agrees (columns : List ColumnDef) (w : Written columns) : Prop where
  decodes : decodeRow utf8Error rt .release w.bytes columns =
    .ok (w.values ++ (columns.drop w.values.length).map (UniDb.missingColumnDefault rt))
  deforms : ∀ cols : List Nat, ∃ ws, deformAt utf8Error rt w.bytes columns cols = .ok ws ∧
    ∀ vs, decodeRow utf8Error rt .release w.bytes columns = .ok vs →
      ∀ i ∈ cols, i < columns.length → ws[i]? = vs[i]?
  filters : ∀ (predicate : Option Expr) vs b, decodeRow utf8Error rt .release w.bytes columns =
    .ok vs → predicateMatches rt predicate columns vs = .ok b →
      scanFilter utf8Error rt w.bytes columns predicate = .ok b

end

/-! ## One value -/

section
variable {bytes : Slice} {pre post : List UInt8} {what : String}

lemma byteAt_mid {b : UInt8} (h : bytes.1 = pre ++ b :: post) :
    byteAt bytes pre.length what = .ok (b, pre.length + 1) :=
  byteAt_of_getElem? _ (by simp [h])

variable {raw : List UInt8} {n : Nat} {f : List UInt8 → Except DbError Literal} {v : Literal}
  {whatLen : String} {mask : List Bool × Nat} {vs : Row}

lemma readAt_mid (h : bytes.1 = pre ++ (raw ++ post)) (hn : raw.length = n) :
    readAt bytes pre.length n what = .ok (raw, pre.length + n) := by
  refine readAt_of_slice _ ?_
  rw [h]
  exact slice_mid _ _ _ rfl (by rw [hn])

lemma decodeFixed_mid {f : List UInt8 → Literal} (h : bytes.1 = pre ++ (raw ++ post))
    (hn : raw.length = n) (hvalue : f raw = v) :
    decodeFixed bytes pre.length n what f = .ok (v, pre.length + raw.length) := by
  rw [decodeFixed, readAt_mid h hn, ← hvalue, hn]
  rfl

lemma decodeSigned_mid {k : Nat} {n : Int} (value : Int → Literal) (hn : FitsSigned k n)
    (h : bytes.1 = pre ++ (leSigned k n ++ post)) :
    decodeFixed bytes pre.length k what (fun raw => value (ofLeSigned raw)) =
      .ok (value n, pre.length + (leSigned k n).length) :=
  decodeFixed_mid h (length_leSigned k n) (congrArg value (ofLeSigned_leSigned hn))

lemma decodeSized_mod (h : bytes.1 = pre ++ (leBytes 4 n ++ (raw ++ post)))
    (hn : n % 2 ^ 32 = raw.length) (hvalue : f raw = .ok v) :
    decodeSized bytes pre.length whatLen what f = .ok (v, pre.length + (4 + raw.length)) := by
  have hread : readAt bytes (pre ++ leBytes 4 n).length raw.length what =
      .ok (raw, (pre ++ leBytes 4 n).length + raw.length) :=
    readAt_mid (by rw [h, append_assoc]) rfl
  rw [length_append, length_leBytes] at hread
  have hpow : (256 : Nat) ^ 4 = 2 ^ 32 := by decide
  have hback : ofLe (leBytes 4 n) = raw.length := by rw [ofLe_leBytes, hpow, hn]
  rw [decodeSized, readAt_mid h (length_leBytes 4 _)]
  show (readAt bytes (pre.length + 4) (ofLe (leBytes 4 n)) what >>= _) = _
  rw [hback, hread]
  show (f raw >>= _) = _
  rw [hvalue, ← Nat.add_assoc]
  rfl

lemma decodeSized_mid (h : bytes.1 = pre ++ ((leBytes 4 raw.length ++ raw) ++ post))
    (hshort : raw.length < 2 ^ 32) (hvalue : f raw = .ok v) :
    decodeSized bytes pre.length whatLen what f =
      .ok (v, pre.length + (leBytes 4 raw.length ++ raw).length) := by
  rw [append_assoc] at h
  rw [decodeSized_mod h (mod_eq_of_lt hshort) hvalue, length_append, length_leBytes]

/-- What is read where a length was written has that length modulo `2 ^ 32`. -/
lemma decodeSized_wraps {rest : List UInt8} {stop : Nat}
    {value : List UInt8 → Except DbError Literal}
    (h : bytes.1 = pre ++ (leBytes 4 raw.length ++ rest))
    (hdec : decodeSized bytes pre.length whatLen what value = .ok (v, stop)) :
    ∃ part, part.length = raw.length % 2 ^ 32 ∧ value part = .ok v := by
  obtain ⟨⟨len, p⟩, hlen, hdec⟩ := bind_eq_ok.1 hdec
  rw [readAt_mid h (length_leBytes 4 _)] at hlen
  cases hlen
  obtain ⟨⟨part, q⟩, hread, hdec⟩ := bind_eq_ok.1 hdec
  obtain ⟨lit, hvalue, ⟨⟩⟩ := bind_eq_ok.1 hdec
  obtain ⟨-, -, hlen, -⟩ := readAt_eq_ok hread
  rw [ofLe_leBytes] at hlen
  exact ⟨part, hlen, hvalue⟩

lemma decodeElems_mid (v : List UInt32)
    (h : bytes.1 = pre ++ ((v.flatMap fun f => leBytes 4 f.toNat) ++ post)) :
    decodeElems bytes v.length pre.length = .ok (v, pre.length + v.length * 4) := by
  induction v generalizing pre with
  | nil => rfl
  | cons f v ih =>
    rw [flatMap_cons, append_assoc] at h
    have hrest : decodeElems bytes v.length (pre ++ leBytes 4 f.toNat).length = _ :=
      ih (by rw [h, append_assoc])
    rw [length_append, length_leBytes] at hrest
    rw [length_cons, decodeElems, readAt_mid h (length_leBytes 4 _)]
    show (decodeElems bytes v.length (pre.length + 4) >>= _) = _
    have hf : ofLe (leBytes 4 f.toNat) = f.toNat := ofLe_leBytes_of_lt f.toNat_lt
    rw [hrest]
    show Except.ok (UInt32.ofNat (ofLe (leBytes 4 f.toNat)) :: v, _) = _
    rw [hf, UInt32.ofNat_toNat, Nat.add_mul, Nat.add_assoc, Nat.add_comm 4]

variable {utf8Error : List UInt8 → String}

lemma fromUtf8_utf8 (value : String → Literal) (s : String) :
    fromUtf8 utf8Error value (utf8 s) = .ok (value s) := by
  have hback : String.fromUTF8? ⟨(utf8 s).toArray⟩ = some s :=
    dif_pos s.isValidUTF8
  rw [fromUtf8, hback]

lemma fromUtf8_eq_ok {value : String → Literal} (h : fromUtf8 utf8Error value raw = .ok v) :
    ∃ s, v = value s ∧ utf8 s = raw := by
  unfold fromUtf8 at h
  split at h
  · next s hs =>
    cases h
    unfold String.fromUTF8? at hs
    split at hs
    · cases hs
      exact ⟨_, rfl, rfl⟩
    · cases hs
  · cases h

variable {col : ColumnDef} {v : Literal}

lemma decodeVector_mid {elems : List UInt32} (hcol : checkDimension col elems.length = .ok ())
    (hlen : elems.length < 2 ^ 32)
    (h : bytes.1 = pre ++ ((leBytes 4 elems.length ++ elems.flatMap fun f => leBytes 4 f.toNat) ++
      post)) : decodeVector bytes pre.length col = .ok (.vector elems, pre.length +
      (leBytes 4 elems.length ++ elems.flatMap fun f => leBytes 4 f.toNat).length) := by
  rw [append_assoc] at h
  have helems : decodeElems bytes elems.length (pre ++ leBytes 4 elems.length).length = _ :=
    decodeElems_mid elems (by rw [h, append_assoc])
  have hwidth : (elems.flatMap fun f => leBytes 4 f.toNat).length = elems.length * 4 := by
    simp [length_flatMap]
  rw [length_append, length_leBytes] at helems
  rw [decodeVector, readAt_mid h (length_leBytes 4 _), length_append, hwidth,
    ← Nat.add_assoc]
  show (checkDimension col (ofLe (leBytes 4 elems.length)) >>= fun _ =>
    decodeElems bytes (ofLe (leBytes 4 elems.length)) (pre.length + 4) >>= _) = _
  rw [ofLe_leBytes_of_lt hlen, hcol, helems]
  rfl

lemma decodeDecimal_mid {n : Int} {scale : Nat} (hcol : checkScale col scale = .ok ())
    (hn : FitsSigned 16 n) (hscale : scale < 2 ^ 8)
    (h : bytes.1 = pre ++ ((leSigned 16 n ++ [UInt8.ofNat scale]) ++ post)) :
    decodeDecimal bytes pre.length col = .ok (.decimal n scale, pre.length +
      (leSigned 16 n ++ [UInt8.ofNat scale]).length) := by
  rw [append_assoc] at h
  have hbyte : byteAt bytes (pre ++ leSigned 16 n).length "truncated decimal scale" = _ :=
    byteAt_mid (by rw [h, append_assoc]; rfl)
  have hback : (UInt8.ofNat scale).toNat = scale := UInt8.toNat_ofNat_of_lt' hscale
  rw [length_append, length_leSigned] at hbyte
  rw [decodeDecimal, readAt_mid h (length_leSigned 16 _)]
  show (byteAt bytes (pre.length + 16) "truncated decimal scale" >>= _) = _
  rw [hbyte]
  show (checkScale col (UInt8.ofNat scale).toNat >>= fun _ =>
    pure (Literal.decimal (ofLeSigned (leSigned 16 n)) (UInt8.ofNat scale).toNat, _)) = _
  rw [hback, hcol, ofLeSigned_leSigned hn]
  rfl

lemma decodePayload_encode (hmatch : Matches col.ty v) (hshort : Short v) :
    ∃ tag body, encodeValue v = tag :: body ∧ ∀ pre, bytes.1 = pre ++ (body ++ post) →
      decodePayload utf8Error bytes pre.length col tag.toNat =
          .ok (v, pre.length + body.length) := by
  cases v with
  | null => exact ⟨_, _, rfl, fun pre _ => rfl⟩
  | int n => exact ⟨_, _, rfl, fun pre => decodeSigned_mid .int hmatch.2⟩
  | text s | json s =>
    exact ⟨_, _, rfl, fun pre h => decodeSized_mid h hshort (fromUtf8_utf8 _ _)⟩
  | bool b =>
    refine ⟨_, _, rfl, fun pre h => ?_⟩
    show (byteAt bytes pre.length "truncated bool" >>= _) = _
    rw [byteAt_mid h]
    cases b <;> rfl
  | vector elems =>
    exact ⟨_, _, rfl, fun pre => decodeVector_mid (by simp [checkDimension, hmatch.1]) hmatch.2⟩
  | decimal n scale =>
    obtain ⟨⟨precision, hty⟩, hn, hscale⟩ := hmatch
    exact ⟨_, _, rfl, fun pre => decodeDecimal_mid (by simp [checkScale, hty]) hn hscale⟩
  | timestamp t => exact ⟨_, _, rfl, fun pre => decodeSigned_mid .timestamp hmatch.2⟩
  | float f =>
    refine ⟨_, _, rfl, fun pre h => ?_⟩
    have hback : Literal.float (UInt64.ofNat (ofLe (leBytes 8 f.toNat))) = .float f := by
      rw [ofLe_leBytes_of_lt f.toNat_lt, UInt64.ofNat_toNat]
    exact decodeFixed_mid (f := fun raw => .float (UInt64.ofNat (ofLe raw))) h
      (length_leBytes 8 _) hback
  | uuid b => exact ⟨_, _, rfl, fun pre h => decodeFixed_mid h hmatch.2 rfl⟩
  | bytea b =>
    refine ⟨_, _, rfl, fun pre h => ?_⟩
    exact decodeSized_mid (f := fun raw => .ok (.bytea raw)) h hshort rfl
  | date d => exact ⟨_, _, rfl, fun pre => decodeSigned_mid .date hmatch.2⟩
  | time t => exact ⟨_, _, rfl, fun pre => decodeSigned_mid .time hmatch.2⟩
  | param n => exact hmatch.elim

/-- **A value of the column's type** is decoded as it was written. -/
theorem decodeValueAt_encode (hmatch : Matches col.ty v) (hshort : Short v)
    (h : bytes.1 = pre ++ (encodeValue v ++ post)) :
    decodeValueAt utf8Error bytes pre.length col =
        .ok (v, pre.length + (encodeValue v).length) := by
  obtain ⟨tag, body, henc, hpayload⟩ := decodePayload_encode hmatch hshort
  rw [henc] at h
  have hbody := hpayload (pre ++ [tag]) (by rw [h, append_assoc]; rfl)
  rw [length_append] at hbody
  rw [decodeValueAt, byteAt_mid h, henc, length_cons, Nat.add_comm body.length, ← Nat.add_assoc]
  exact hbody

/-- **A value that is too long** is not decoded as it was written. -/
theorem short_of_decodeValueAt {stop : Nat} (h : bytes.1 = pre ++ (encodeValue v ++ post))
    (hdec : decodeValueAt utf8Error bytes pre.length col = .ok (v, stop)) : Short v := by
  have wraps : ∀ {tag : UInt8} {raw : List UInt8} {whatLen what : String}
      {f : List UInt8 → Except DbError Literal},
      encodeValue v = tag :: (leBytes 4 raw.length ++ raw) →
      (∀ p, decodePayload utf8Error bytes p col tag.toNat = decodeSized bytes p whatLen what f) →
      (∀ part, f part = .ok v → part = raw) → raw.length < 2 ^ 32 := by
    intro tag raw whatLen what f henc htag hvalue
    rw [henc, cons_append, append_assoc] at h
    rw [decodeValueAt, byteAt_mid h] at hdec
    have hsized : decodeSized bytes (pre ++ [tag]).length whatLen what f = .ok (v, stop) := by
      rw [← htag, length_append]
      exact hdec
    obtain ⟨part, hlen, hpart⟩ := decodeSized_wraps (by rw [h, append_assoc]; rfl) hsized
    rw [hvalue part hpart] at hlen
    omega
  cases v with
  | text s | json s =>
    refine wraps rfl (fun p => rfl) fun part hpart => ?_
    obtain ⟨s', hs, hutf⟩ := fromUtf8_eq_ok hpart
    cases hs
    exact hutf.symm
  | bytea b =>
    refine wraps (f := fun raw => .ok (.bytea raw)) rfl (fun p => rfl) fun part hpart => ?_
    cases hpart
    rfl
  | _ => exact Nat.two_pow_pos 32

/-! ## Rows -/

variable {rt : Runtime} {columns : List ColumnDef} {values : Row}

lemma missingColumnDefault_eq (col : ColumnDef) :
    missingColumnDefault rt .release col = .ok (UniDb.missingColumnDefault rt col) := by
  unfold missingColumnDefault UniDb.missingColumnDefault
  cases col.constraints.default with
  | none => rfl
  | some default =>
    have hcoerce := (noPanic_coerceValue_iff rt .release "" col default).2 nofun
    dsimp only
    split
    · next v hv => rw [hv]
    · next hv => exact absurd hv hcoerce
    · next e _ hv => rw [hv]

lemma encodeValue_ne_nil (v : Literal) : encodeValue v ≠ [] := by
  cases v <;> simp [encodeValue]

lemma not_end_of_value (h : bytes.1 = pre ++ (encodeValue v ++ post)) :
    ¬bytes.1.length ≤ pre.length := by
  have hpos := length_pos_iff.2 (encodeValue_ne_nil v)
  rw [h, length_append, length_append]
  omega

lemma decodeRowFrom_encode (pre : List UInt8) (h : bytes.1 = pre ++ encodeRow values)
    (hlen : values.length ≤ columns.length)
    (hmatch : ∀ p ∈ columns.zip values, Matches p.1.ty p.2) (hshort : ∀ v ∈ values, Short v) :
    decodeRowFrom utf8Error rt .release bytes pre.length columns =
      .ok (values ++ (columns.drop values.length).map (UniDb.missingColumnDefault rt)) := by
  induction columns generalizing pre values with
  | nil =>
    obtain rfl := length_eq_zero_iff.1 (le_zero.1 hlen)
    rfl
  | cons col columns ih =>
    cases values with
    | nil =>
      have hrest := ih pre h (zero_le _) (by simp) (by simp)
      have hend : bytes.1.length ≤ pre.length := by simp [h, encodeRow]
      rw [decodeRowFrom, if_pos hend, missingColumnDefault_eq, hrest]
      rfl
    | cons v vs =>
      have hbytes : bytes.1 = pre ++ (encodeValue v ++ encodeRow vs) := h
      have hv : decodeValueAt utf8Error bytes pre.length col = _ :=
        decodeValueAt_encode (hmatch (col, v) (by simp)) (hshort v (by simp)) hbytes
      have hrest : decodeRowFrom utf8Error rt .release bytes (pre ++ encodeValue v).length columns =
          _ :=
        ih _ (by rw [hbytes, append_assoc]) (le_of_succ_le_succ hlen)
          (fun p hp => hmatch p (mem_cons_of_mem _ hp))
          (fun u hu => hshort u (mem_cons_of_mem _ hu))
      rw [length_append] at hrest
      rw [decodeRowFrom, if_neg (not_end_of_value hbytes), hv]
      show (decodeRowFrom utf8Error rt .release bytes
        (pre.length + (encodeValue v).length) columns >>= _) = _
      rw [hrest]
      rfl

lemma values_short (pre : List UInt8) {rest : Row} (h : bytes.1 = pre ++ encodeRow values)
    (hlen : values.length ≤ columns.length) (hmatch : ∀ p ∈ columns.zip values, Matches p.1.ty p.2)
    (hdec : decodeRowFrom utf8Error rt .release bytes pre.length columns = .ok (values ++ rest)) :
    ∀ v ∈ values, Short v := by
  induction values generalizing pre columns with
  | nil => simp
  | cons v vs ih =>
    cases columns with
    | nil => exact absurd hlen (by simp)
    | cons col columns =>
      have hbytes : bytes.1 = pre ++ (encodeValue v ++ encodeRow vs) := h
      rw [decodeRowFrom, if_neg (not_end_of_value hbytes)] at hdec
      obtain ⟨⟨u, stop⟩, hu, hdec⟩ := bind_eq_ok.1 hdec
      obtain ⟨us, hrest, ⟨⟩⟩ := bind_eq_ok.1 hdec
      have hv : Short v := short_of_decodeValueAt hbytes hu
      -- The value is short, so the decoder goes on behind it.
      rw [decodeValueAt_encode (hmatch (col, v) (by simp)) hv hbytes] at hu
      cases hu
      rw [← length_append] at hrest
      have hvs := ih _ (by rw [hbytes, append_assoc]) (le_of_succ_le_succ hlen)
        (fun p hp => hmatch p (mem_cons_of_mem _ hp)) hrest
      exact forall_mem_cons.2 ⟨hv, hvs⟩

lemma decodeRow_eq_append (hlen : values.length ≤ columns.length) :
    UniDb.decodeRow rt columns values =
      values ++ (columns.drop values.length).map (UniDb.missingColumnDefault rt) := by
  apply ext_getElem?
  intro i
  rw [UniDb.decodeRow, getElem?_mapIdx]
  by_cases hi : i < values.length
  · have hi' : i < columns.length := by omega
    rw [getElem?_append_left hi]
    simp [hi, hi']
  · have hget : columns[values.length + (i - values.length)]? = columns[i]? := by
      congr 1
      omega
    rw [getElem?_append_right (by omega), getElem?_map, getElem?_drop, hget,
      getElem?_eq_none (by omega : values.length ≤ i)]
    rfl

/-! ## Masks -/

/-- A mask marks the positions in `cols` and no position behind `upto`. -/
structure Marks (ncols : Nat) (mask : List Bool × Nat) (cols : List Nat) : Prop where
  length_eq : mask.1.length = ncols
  marked : ∀ i, mask.1[i]? = some true ↔ i ∈ cols ∧ i < ncols
  le_upto : ∀ i, mask.1[i]? = some true → i ≤ mask.2

lemma Marks.needColumn {ncols : Nat} {cols : List Nat} (h : Marks ncols mask cols) (c : Nat) :
    Marks ncols (needColumn ncols mask c) (cols ++ [c]) := by
  unfold Codec.needColumn
  split
  · next hc =>
    have hset : ∀ i, (mask.1.set c true)[i]? = some true ↔ i = c ∨ mask.1[i]? = some true := by
      intro i
      have hc' : c < mask.1.length := h.length_eq ▸ hc
      by_cases hi : i = c
      · simp [hi, hc']
      · simp [hi, getElem?_set_ne (Ne.symm hi)]
    refine ⟨by rw [length_set, h.length_eq], fun i => ?_, fun i hi => ?_⟩
    · rw [hset, h.marked, mem_append, mem_singleton]
      constructor
      · rintro (rfl | ⟨hi, hlt⟩)
        · exact ⟨.inr rfl, hc⟩
        · exact ⟨.inl hi, hlt⟩
      · rintro ⟨hi | rfl, hlt⟩
        · exact .inr ⟨hi, hlt⟩
        · exact .inl rfl
    · rcases (hset i).1 hi with rfl | hi
      · exact le_max_right _ _
      · exact le_trans (h.le_upto i hi) (le_max_left _ _)
  · next hc =>
    refine ⟨h.length_eq, fun i => ?_, h.le_upto⟩
    rw [h.marked, mem_append, mem_singleton]
    constructor
    · exact fun ⟨hi, hlt⟩ => ⟨.inl hi, hlt⟩
    · rintro ⟨hi | rfl, hlt⟩
      · exact ⟨hi, hlt⟩
      · exact absurd hlt hc

lemma Marks.foldl {ncols : Nat} (cols : List Nat) {done : List Nat} (h : Marks ncols mask done) :
    Marks ncols (cols.foldl (Codec.needColumn ncols) mask) (done ++ cols) := by
  induction cols generalizing mask done with
  | nil => simpa using h
  | cons c cols ih => simpa using ih (h.needColumn c)

theorem neededMask_marks (cols : List Nat) (ncols : Nat) :
    Marks ncols (neededMask cols ncols) cols := by
  have hnone : ∀ i : Nat, (List.replicate ncols false)[i]? ≠ some true := by
    intro i hi
    rw [getElem?_replicate] at hi
    split at hi <;> cases hi
  have hstart : Marks ncols (List.replicate ncols false, 0) [] :=
    ⟨length_replicate, fun i => by simp [hnone i], fun i hi => absurd hi (hnone i)⟩
  exact hstart.foldl cols

lemma deformRowFrom_total {pos upto i : Nat} {needed : List Bool}
    (hlen : i + columns.length ≤ needed.length)
    (hv : decodeRowFrom utf8Error rt .release bytes pos columns = .ok vs) :
    ∃ ws, deformRowFrom utf8Error rt .release bytes upto needed i pos columns = .ok ws ∧
      ws.length = columns.length := by
  induction columns generalizing pos i vs with
  | nil => exact ⟨[], rfl, rfl⟩
  | cons col columns ih =>
    rw [length_cons] at hlen
    obtain ⟨b, hb⟩ : ∃ b, readMask needed i = .ok b := by
      rw [readMask, getElem?_eq_getElem (by omega)]
      exact ⟨_, rfl⟩
    by_cases hupto : upto < i
    · exact ⟨_, by rw [deformRowFrom, if_pos hupto]; rfl, by simp⟩
    -- The walker reads one column and is where the decoder is.
    obtain ⟨w, q, vs', hcol, hrest⟩ : ∃ w q vs',
        deformColumn utf8Error rt .release bytes pos col b = .ok (w, q) ∧
          decodeRowFrom utf8Error rt .release bytes q columns = .ok vs' := by
      rw [decodeRowFrom] at hv
      split at hv
      · next hend =>
        obtain ⟨v, hdefault, hv⟩ := bind_eq_ok.1 hv
        obtain ⟨vs', hvs', hv⟩ := bind_eq_ok.1 hv
        cases b with
        | true => exact ⟨v, pos, vs', by rw [deformColumn, if_pos hend, hdefault]; rfl, hvs'⟩
        | false => exact ⟨.null, pos, vs', by rw [deformColumn, if_pos hend]; rfl, hvs'⟩
      · next hend =>
        obtain ⟨⟨v, p⟩, hvalue, hv⟩ := bind_eq_ok.1 hv
        obtain ⟨vs', hvs', hv⟩ := bind_eq_ok.1 hv
        cases b with
        | true => exact ⟨v, p, vs', by rw [deformColumn, if_neg hend, if_pos rfl, hvalue], hvs'⟩
        | false =>
          refine ⟨.null, p, vs', ?_, hvs'⟩
          rw [deformColumn, if_neg hend, (skipValueAt_of_decode hvalue).1]
          rfl
    obtain ⟨ws, hws, hlen'⟩ := ih (i := i + 1) (by omega) hrest
    refine ⟨w :: ws, ?_, by simp [hlen']⟩
    rw [deformRowFrom, if_neg hupto, hb]
    show (deformColumn utf8Error rt .release bytes pos col b >>= _) = _
    rw [hcol]
    show (deformRowFrom utf8Error rt .release bytes upto needed (i + 1) q columns >>= _) = _
    rw [hws]
    rfl

lemma deformAt_of_decode (cols : List Nat)
    (hv : decodeRow utf8Error rt .release bytes columns = .ok vs) :
    ∃ ws, deformAt utf8Error rt bytes columns cols = .ok ws ∧ ws.length = columns.length ∧
      ∀ i ∈ cols, i < columns.length → ws[i]? = vs[i]? := by
  have hmask := neededMask_marks cols columns.length
  obtain ⟨ws, hws, hlen⟩ := deformRowFrom_total (by rw [Nat.zero_add, hmask.length_eq]) hv
  refine ⟨ws, hws, hlen, fun i hi hlt => ?_⟩
  exact deformRowFrom_of_decode hmask.le_upto hv hws i
    (by rw [Nat.zero_add]; exact (hmask.marked i).2 ⟨hi, hlt⟩)

/-! ## The raw probe -/

lemma rawStride_encode {ty : ColumnType} (hmatch : Matches ty v) :
    ∃ tag body, encodeValue v = tag :: body ∧
      rawStride tag.toNat = if v.fixedWidth then some body.length else none := by
  cases v with
  | uuid b => exact ⟨_, _, rfl, by rw [hmatch.2]; rfl⟩
  | int n | timestamp n | time n | date n => exact ⟨_, _, rfl, by rw [length_leSigned]; rfl⟩
  | float f => exact ⟨_, _, rfl, by rw [length_leBytes]; rfl⟩
  | decimal n scale => exact ⟨_, _, rfl, by rw [length_append]; rfl⟩
  | _ => exact ⟨_, _, rfl, rfl⟩

theorem rawI64From_encode {bytes : List UInt8} {i k : Nat} (h : bytes = pre ++ encodeRow values)
    (hmatch : ∀ p ∈ columns.zip values, Matches p.1.ty p.2) :
    rawI64From bytes (i + k) i pre.length columns = UniDb.tryRawI64At columns values k := by
  induction columns generalizing pre values i k with
  | nil => rfl
  | cons col columns ih =>
    cases values with
    | nil =>
      have hend : bytes[pre.length]? = none := by simp [h, encodeRow]
      simp [rawI64From, UniDb.tryRawI64At, hend]
    | cons v vs =>
      have hv : Matches col.ty v := hmatch (col, v) (by simp)
      obtain ⟨tag, body, henc, hstride⟩ := rawStride_encode hv
      have hbytes : bytes = pre ++ (tag :: (body ++ encodeRow vs)) := by
        rw [h, encodeRow, flatMap_cons, henc]
        rfl
      have htag : bytes[pre.length]? = some tag := by simp [hbytes]
      cases k with
      | zero =>
        simp only [rawI64From, htag, UniDb.tryRawI64At]
        cases v with
        | int n =>
          cases henc
          have hslice : slice bytes (pre.length + 1) (pre.length + 9) = some (leSigned 8 n) := by
            rw [hbytes, append_cons]
            exact slice_mid _ _ _ (by simp) (by simp)
          simp [hslice, ofLeSigned_leSigned hv.2]
        | _ => cases henc; simp
      | succ k =>
        have hne : i ≠ i + (k + 1) := by omega
        have hrest : rawI64From bytes (i + 1 + k) (i + 1) (pre ++ tag :: body).length columns = _ :=
          ih (by rw [hbytes, append_assoc]; rfl)
            (fun p hp => hmatch p (mem_cons_of_mem _ hp))
        rw [length_append, length_cons, Nat.add_comm body.length, Nat.add_right_comm] at hrest
        simp only [rawI64From, htag, UniDb.tryRawI64At]
        cases hwidth : v.fixedWidth with
        | false => simp [hstride, hwidth]
        | true => simpa [hstride, hwidth, UniDb.tryRawI64At, Nat.add_assoc] using hrest

lemma rawPasses_encode (hmatch : ∀ p ∈ columns.zip values, Matches p.1.ty p.2)
    (terms : RawFilter) :
    rawPasses (encodeRow values) columns terms = RawFilter.passes columns values terms := by
  induction terms with
  | nil => rfl
  | cons term terms ih =>
    obtain ⟨i, op, n⟩ := term
    have hraw : tryRawI64At (encodeRow values) i columns = UniDb.tryRawI64At columns values i := by
      have hfrom : rawI64From (encodeRow values) (0 + i) 0 ([] : List UInt8).length columns = _ :=
        rawI64From_encode rfl hmatch
      rwa [Nat.zero_add] at hfrom
    rw [rawPasses, RawFilter.passes, hraw]
    cases UniDb.tryRawI64At columns values i with
    | none => rfl
    | some lhs =>
      show (if _ then rawPasses (encodeRow values) columns terms else _) = _
      rw [ih]

/-! ## The scan filter -/

lemma testBound_of_decode {e : Expr} (hlen : vs.length = columns.length)
    (hv : decodeRow utf8Error rt .release bytes columns = .ok vs) :
    testBound utf8Error rt bytes columns (bindPredicateColumns columns e) =
      predicateMatches rt (some e) columns vs := by
  obtain ⟨ws, hws, hwlen, hread⟩ :=
    deformAt_of_decode (exprColumns columns (bindPredicateColumns columns e)) hv
  have hcongr : evalExpr rt columns ws (bindPredicateColumns columns e) =
      evalExpr rt columns vs (bindPredicateColumns columns e) := by
    refine evalExpr_congr fun i hi => ?_
    by_cases hlt : i < columns.length
    · exact hread i hi hlt
    · rw [getElem?_eq_none (by omega), getElem?_eq_none (by omega)]
  rw [testBound, hws]
  show (evalExpr rt columns ws (bindPredicateColumns columns e) >>= asBool rt) =
    (evalExpr rt columns vs e >>= asBool rt)
  rw [hcongr, evalExpr_bind hlen]

lemma tryBuildRawFilter_eq_some {e : Expr} {terms : RawFilter}
    (h : tryBuildRawFilter e = some terms) : collectRawTerms e = some terms := by
  obtain ⟨terms', hterms, h⟩ := Option.bind_eq_some_iff.1 h
  split at h
  · cases h
  · cases h
    exact hterms

/-- The scan filter decides as the predicate does on the decoded row. -/
lemma scanFilter_of_decode
    (hmatch : ∀ p ∈ columns.zip values, Matches p.1.ty p.2) (hbytes : bytes.1 = encodeRow values)
    (hv : decodeRow utf8Error rt .release bytes columns = .ok (UniDb.decodeRow rt columns values))
    {predicate : Option Expr} {b : Bool}
    (hb : predicateMatches rt predicate columns (UniDb.decodeRow rt columns values) = .ok b) :
    scanFilter utf8Error rt bytes columns predicate = .ok b := by
  cases predicate with
  | none => exact hb
  | some e =>
    have htest : testBound utf8Error rt bytes columns (bindPredicateColumns columns e) = .ok b := by
      rw [testBound_of_decode (length_decodeRow values) hv, hb]
    unfold scanFilter
    dsimp only
    split
    · next terms hterms =>
      split
      · next b' hpass =>
        rw [hbytes, rawPasses_encode hmatch] at hpass
        have hsound : evalExpr rt columns (UniDb.decodeRow rt columns values)
            (bindPredicateColumns columns e) = .ok (.bool true) ↔ b' = true :=
          RawFilter.passes_sound (tryBuildRawFilter_eq_some hterms) hpass
        rw [evalExpr_bind (length_decodeRow values), ← predicateMatches_some] at hsound
        cases b <;> cases b' <;> simp_all
      · exact htest
    · exact htest

end

/-- **Row codec and decode push-down.** The decoder, the masked walker and the scan filter agree
with what was written exactly when the length of every value fits its four bytes. -/
theorem agrees_iff_short (utf8Error : List UInt8 → String) (rt : Runtime) (columns : List ColumnDef)
    (w : Written columns) : Agrees utf8Error rt columns w ↔ ∀ v ∈ w.values, Short v := by
  constructor
  · intro h
    exact values_short [] rfl w.length_le w.matching h.decodes
  · intro hshort
    have hdec : decodeRow utf8Error rt .release w.bytes columns = .ok
        (w.values ++ (columns.drop w.values.length).map (UniDb.missingColumnDefault rt)) :=
      decodeRowFrom_encode [] rfl w.length_le w.matching hshort
    refine ⟨hdec, fun cols => ?_, fun predicate vs b hvs hb => ?_⟩
    · obtain ⟨ws, hws, -, hread⟩ := deformAt_of_decode cols hdec
      refine ⟨ws, hws, fun vs hvs => ?_⟩
      rw [hdec] at hvs
      cases hvs
      exact hread
    · rw [← decodeRow_eq_append w.length_le] at hdec
      rw [hdec] at hvs
      cases hvs
      exact scanFilter_of_decode w.matching rfl hdec hb

/-! ## A wrapped length -/

/-- A byte string of a multiple of `2 ^ 32` bytes is decoded as an empty one. -/
lemma decodeValueAt_wrapped {utf8Error : List UInt8 → String} {bytes : Slice} {col : ColumnDef}
    (pre b post : List UInt8) (hb : b.length % 2 ^ 32 = 0)
    (h : bytes.1 = pre ++ (encodeValue (.bytea b) ++ post)) :
    decodeValueAt utf8Error bytes pre.length col = .ok (.bytea [], pre.length + 5) := by
  rw [encodeValue, cons_append, append_assoc] at h
  have hbody : bytes.1 = (pre ++ [10]) ++ (leBytes 4 b.length ++ ([] ++ (b ++ post))) := by
    rw [h, append_cons, nil_append]
  have hsized : decodePayload utf8Error bytes (pre ++ [10]).length col 10 =
      .ok (.bytea [], (pre ++ [10]).length + 4) :=
    decodeSized_mod (f := fun raw => .ok (.bytea raw)) hbody hb rfl
  rw [length_append] at hsized
  rw [decodeValueAt, byteAt_mid h]
  exact hsized

def byteaColumn : ColumnDef := { name := "b", ty := .bytea }

def byteaRow (b : List UInt8) (hb : b.length ≤ 2 ^ 32) : Written [byteaColumn] where
  values := [.bytea b]
  length_le := le_refl 1
  matching := by
    intro p hp
    obtain rfl := mem_singleton.1 hp
    rfl
  size_le := by
    simp only [encodeRow, encodeValue, flatMap_cons, flatMap_nil, append_nil,
      length_cons, length_append, length_leBytes, isizeMax]
    omega

lemma byteaRow_misread {b : List UInt8} (hb : b.length = 2 ^ 32) (utf8Error : List UInt8 → String)
    (rt : Runtime) :
    decodeRow utf8Error rt .release (byteaRow b hb.le).bytes [byteaColumn] = .ok [.bytea []] ∧
      ¬Agrees utf8Error rt [byteaColumn] (byteaRow b hb.le) := by
  have hbytes : (byteaRow b hb.le).bytes.1 = [] ++ (encodeValue (.bytea b) ++ []) := rfl
  have hvalue : decodeValueAt utf8Error (byteaRow b hb.le).bytes 0 byteaColumn =
      .ok (.bytea [], 5) :=
    decodeValueAt_wrapped [] b [] ((congrArg (· % 2 ^ 32) hb).trans (mod_self _)) hbytes
  have hdec : decodeRow utf8Error rt .release (byteaRow b hb.le).bytes [byteaColumn] =
      .ok [.bytea []] := by
    have hend : ¬(byteaRow b hb.le).bytes.1.length ≤ 0 := not_end_of_value hbytes
    rw [decodeRow, decodeRowFrom, hvalue]
    rfl
  refine ⟨hdec, fun h => ?_⟩
  have hvalues := h.decodes
  rw [hdec] at hvalues
  have hempty : ([] : List UInt8) = b := by
    cases hvalues
    rfl
  rw [← hempty] at hb
  cases hb

/-- **A byte string of `2 ^ 32` bytes**: four bytes of length zero stand in front of it, and it is
decoded as an empty one. -/
theorem longBytea_misread : ∃ w : Written [byteaColumn], ∀ utf8Error rt,
    decodeRow utf8Error rt .release w.bytes [byteaColumn] = .ok [.bytea []] ∧
      ¬Agrees utf8Error rt [byteaColumn] w :=
  ⟨byteaRow _ length_replicate.le, byteaRow_misread (length_replicate (a := 0))⟩

end UniDb.Codec
