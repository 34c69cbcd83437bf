import UniDb.Lib.Checked
import UniDb.Lib.LittleEndian
import UniDb.Sql.Decode

/-!
# The bytes of a row (`sql/executor.rs`)

A row is the concatenation of its values, each a tag byte and a payload (`encodeRow`). Three walkers
read it back: `decodeRow` decodes every column, `deformRow` decodes the columns of a mask and steps
over the others with `skipValueAt`, and `tryRawI64At` steps over values of fixed width to one
integer. Positions are `usize` values; an addition or multiplication past `2 ^ 64` is a panic.

* `skipValueAt_of_decode`: where a value decodes, the skip walker ends where the decoder does. It
  checks less: it also steps over values that do not decode.
* `corrupt_rows_rejected_iff`: no bytes make a walker panic. What can panic is the default of a
  column behind the last byte, by the date arithmetic of a debug build.
-/

namespace UniDb.Codec

/-! ## Bytes -/

/-- No slice is longer than an allocation may be. -/
abbrev Slice : Type := { bytes : List UInt8 // bytes.length ≤ isizeMax }

def usizeAdd (a b : Nat) : Except DbError Nat :=
  if a + b < 2 ^ 64 then .ok (a + b) else .error .panicked

def usizeMul (a b : Nat) : Except DbError Nat :=
  if a * b < 2 ^ 64 then .ok (a * b) else .error .panicked

def decodeError (what : String) : DbError := .sqlPlan ("row decode error: " ++ what)

section
variable (bytes : Slice) (pos : Nat) (col : ColumnDef)

def byteAt (what : String) : Except DbError (UInt8 × Nat) :=
  match bytes.1[pos]? with
  | some b => do pure (b, ← usizeAdd pos 1)
  | none => .error (decodeError what)

/-- The `n` bytes at a position, and the position behind them. -/
def readAt (n : Nat) (what : String) : Except DbError (List UInt8 × Nat) := do
  let stop ← usizeAdd pos n
  match slice bytes.1 pos stop with
  | some raw => pure (raw, stop)
  | none => .error (decodeError what)

/-! ## Writing -/

def utf8 (s : String) : List UInt8 := s.toUTF8.data.toList

/-- One value of `encode_row`. Lengths are written in four bytes, whatever they are. -/
def encodeValue : Literal → List UInt8
  | .null => [0]
  | .int n => 1 :: leSigned 8 n
  | .text s => 2 :: (leBytes 4 (utf8 s).length ++ utf8 s)
  | .bool b => [3, if b then 1 else 0]
  | .json s => 4 :: (leBytes 4 (utf8 s).length ++ utf8 s)
  | .vector v => 5 :: (leBytes 4 v.length ++ v.flatMap fun f => leBytes 4 f.toNat)
  | .decimal v scale => 6 :: (leSigned 16 v ++ [UInt8.ofNat scale])
  | .timestamp micros => 7 :: leSigned 8 micros
  | .float f => 8 :: leBytes 8 f.toNat
  | .uuid b => 9 :: b
  | .bytea b => 10 :: (leBytes 4 b.length ++ b)
  | .date days => 11 :: leSigned 4 days
  | .time micros => 12 :: leSigned 8 micros
  | .param _ => [0]

def encodeRow (values : Row) : List UInt8 := values.flatMap encodeValue

/-! ## Reading -/

/-- The position behind a payload, by its tag. Only the length is read. -/
def skipPayload : Nat → Except DbError Nat
  | 0 => pure pos
  | 3 => usizeAdd pos 1
  | 11 => usizeAdd pos 4
  | 1 | 7 | 8 | 12 => usizeAdd pos 8
  | 9 => usizeAdd pos 16
  | 6 => usizeAdd pos 17
  | 2 | 4 | 10 => do
    let (raw, pos) ← readAt bytes pos 4 "truncated length"
    usizeAdd pos (ofLe raw)
  | 5 => do
    let (raw, pos) ← readAt bytes pos 4 "truncated length"
    usizeAdd pos (← usizeMul (ofLe raw) 4)
  | other => .error (decodeError ("unknown tag " ++ toString other))

/-- `skip_value_at`: the position behind a value. -/
def skipValueAt : Except DbError Nat := do
  let (tag, pos) ← byteAt bytes pos "truncated tag"
  skipPayload bytes pos tag.toNat

def decodeFixed (n : Nat) (what : String) (value : List UInt8 → Literal) :
    Except DbError (Literal × Nat) := do
  let (raw, pos) ← readAt bytes pos n what
  pure (value raw, pos)

def decodeSized (whatLen what : String)
    (value : List UInt8 → Except DbError Literal) : Except DbError (Literal × Nat) := do
  let (len, pos) ← readAt bytes pos 4 whatLen
  let (raw, pos) ← readAt bytes pos (ofLe len) what
  pure (← value raw, pos)

def decodeElems (bytes : Slice) : Nat → Nat → Except DbError (List UInt32 × Nat)
  | 0, pos => pure ([], pos)
  | dim + 1, pos => do
    let (raw, pos) ← readAt bytes pos 4 "truncated vector element"
    let (values, pos) ← decodeElems bytes dim pos
    pure (UInt32.ofNat (ofLe raw) :: values, pos)

def checkDimension (dim : Nat) : Except DbError Unit :=
  match col.ty with
  | .vector n =>
    if dim ≠ n then
      .error (decodeError ("column '" ++ col.name ++ "' declares dimension " ++ toString n ++
        ", but stored data has dimension " ++ toString dim))
    else .ok ()
  | _ => .ok ()

def checkScale (scale : Nat) : Except DbError Unit :=
  match col.ty with
  | .decimal _ colScale =>
    if scale ≠ colScale then
      .error (decodeError ("column '" ++ col.name ++ "' declares scale " ++ toString colScale ++
        ", but stored data has scale " ++ toString scale))
    else .ok ()
  | _ => .ok ()

def decodeVector : Except DbError (Literal × Nat) := do
  let (raw, pos) ← readAt bytes pos 4 "truncated vector dim"
  checkDimension col (ofLe raw)
  let (values, pos) ← decodeElems bytes (ofLe raw) pos
  pure (.vector values, pos)

def decodeDecimal : Except DbError (Literal × Nat) := do
  let (raw, pos) ← readAt bytes pos 16 "truncated decimal"
  let (scale, pos) ← byteAt bytes pos "truncated decimal scale"
  checkScale col scale.toNat
  pure (.decimal (ofLeSigned raw) scale.toNat, pos)

end

section
variable (utf8Error : List UInt8 → String)

/-- `String::from_utf8`; `utf8Error` is the text of its error. -/
def fromUtf8 (value : String → Literal) (raw : List UInt8) : Except DbError Literal :=
  match String.fromUTF8? ⟨raw.toArray⟩ with
  | some s => .ok (value s)
  | none => .error (decodeError ("invalid utf8: " ++ utf8Error raw))

/-- The value of a payload, by its tag, and the position behind it. -/
def decodePayload (bytes : Slice) (pos : Nat) (col : ColumnDef) :
    Nat → Except DbError (Literal × Nat)
  | 0 => pure (.null, pos)
  | 1 => decodeFixed bytes pos 8 "truncated int" fun raw => .int (ofLeSigned raw)
  | 2 => decodeSized bytes pos "truncated length" "truncated string" (fromUtf8 utf8Error .text)
  | 4 => decodeSized bytes pos "truncated length" "truncated string" (fromUtf8 utf8Error .json)
  | 3 => do
    let (b, pos) ← byteAt bytes pos "truncated bool"
    pure (.bool (b != 0), pos)
  | 5 => decodeVector bytes pos col
  | 6 => decodeDecimal bytes pos col
  | 7 => decodeFixed bytes pos 8 "truncated timestamp" fun raw => .timestamp (ofLeSigned raw)
  | 8 => decodeFixed bytes pos 8 "truncated float" fun raw => .float (UInt64.ofNat (ofLe raw))
  | 9 => decodeFixed bytes pos 16 "truncated uuid" .uuid
  | 10 => decodeSized bytes pos "truncated bytea length" "truncated bytea" fun raw =>
      .ok (.bytea raw)
  | 11 => decodeFixed bytes pos 4 "truncated date" fun raw => .date (ofLeSigned raw)
  | 12 => decodeFixed bytes pos 8 "truncated time" fun raw => .time (ofLeSigned raw)
  | other => .error (decodeError ("unknown tag " ++ toString other))

/-- `decode_value_at`: the value at a position, and the position behind it. -/
def decodeValueAt (bytes : Slice) (pos : Nat) (col : ColumnDef) :
    Except DbError (Literal × Nat) := do
  let (tag, pos) ← byteAt bytes pos "truncated tag"
  decodePayload utf8Error bytes pos col tag.toNat

variable (rt : Runtime) (profile : Profile) (bytes : Slice) (columns : List ColumnDef)

/-- `missing_column_default`; an error of the coercion leaves NULL. -/
def missingColumnDefault (col : ColumnDef) : Except DbError Literal :=
  match col.constraints.default with
  | some default =>
    match coerceValue rt profile "" col default with
    | .ok v => .ok v
    | .error .panicked => .error .panicked
    | .error _ => .ok .null
  | none => .ok .null

def decodeRowFrom (bytes : Slice) : Nat → List ColumnDef → Except DbError Row
  | _, [] => pure []
  | pos, col :: columns =>
    if bytes.1.length ≤ pos then do
      let v ← missingColumnDefault rt profile col
      let vs ← decodeRowFrom bytes pos columns
      pure (v :: vs)
    else do
      let (v, pos) ← decodeValueAt utf8Error bytes pos col
      let vs ← decodeRowFrom bytes pos columns
      pure (v :: vs)

def decodeRow : Except DbError Row :=
  decodeRowFrom utf8Error rt profile bytes 0 columns

/-- `needed[i]`, a panic where the mask is too short. -/
def readMask (needed : List Bool) (i : Nat) : Except DbError Bool :=
  match needed[i]? with
  | some b => .ok b
  | none => .error .panicked

/-- One column of `deform_row`: its value, NULL where not needed, and the position behind it. -/
def deformColumn (pos : Nat) (col : ColumnDef) (needed : Bool) : Except DbError (Literal × Nat) :=
  if bytes.1.length ≤ pos then
    if needed then do pure (← missingColumnDefault rt profile col, pos) else pure (.null, pos)
  else if needed then decodeValueAt utf8Error bytes pos col
  else do pure (.null, ← skipValueAt bytes pos)

def deformRowFrom (bytes : Slice) (upto : Nat) (needed : List Bool) :
    Nat → Nat → List ColumnDef → Except DbError Row
  | _, _, [] => pure []
  | i, pos, col :: columns =>
    if upto < i then pure (.null :: columns.map fun _ => .null)
    else do
      let (v, pos) ← deformColumn utf8Error rt profile bytes pos col (← readMask needed i)
      let vs ← deformRowFrom bytes upto needed (i + 1) pos columns
      pure (v :: vs)

def deformRow (upto : Nat) (needed : List Bool) : Except DbError Row :=
  deformRowFrom utf8Error rt profile bytes upto needed 0 0 columns

end

/-- A mask of the columns: which are needed, and a position that none of these is behind. -/
structure Mask (columns : List ColumnDef) where
  needed : List Bool
  upto : Nat
  length_eq : needed.length = columns.length
  le_upto : ∀ i, needed[i]? = some true → i ≤ upto

/-- The default of a column is not a temporal text whose arithmetic overflows. -/
def DefaultFits (rt : Runtime) (col : ColumnDef) : Prop :=
  ∀ default, col.constraints.default = some default → ¬CoercionOverflows rt col.ty default

/-! ## No panic -/

variable {a b n dim : Nat} {raw : List UInt8}

lemma usizeAdd_of_lt (h : a + b < 2 ^ 64) : usizeAdd a b = .ok (a + b) := if_pos h

lemma usizeMul_of_lt (h : a * b < 2 ^ 64) : usizeMul a b = .ok (a * b) := if_pos h

lemma noPanic_usizeAdd (h : a + b < 2 ^ 64) : NoPanic (usizeAdd a b) := by
  rw [usizeAdd_of_lt h]
  exact avoids_ok _

section
variable {bytes : Slice} {pos : Nat} {what : String}

lemma length_lt (bytes : Slice) : bytes.1.length < 2 ^ 63 :=
  Nat.lt_of_le_of_lt bytes.2 (by decide)

variable {stop : Nat}

lemma byteAt_eq_ok {b : UInt8} (h : byteAt bytes pos what = .ok (b, stop)) :
    bytes.1[pos]? = some b ∧ stop = pos + 1 ∧ stop ≤ bytes.1.length := by
  unfold byteAt at h
  split at h
  · next c hc =>
    have hlt := (List.getElem?_eq_some_iff.1 hc).1
    have hlen := length_lt bytes
    rw [usizeAdd_of_lt (by omega)] at h
    cases h
    exact ⟨hc, rfl, hlt⟩
  · cases h

lemma byteAt_of_getElem? {b : UInt8} (what : String) (h : bytes.1[pos]? = some b) :
    byteAt bytes pos what = .ok (b, pos + 1) := by
  have hlt := (List.getElem?_eq_some_iff.1 h).1
  have hlen := length_lt bytes
  rw [byteAt, h]
  show (usizeAdd pos 1 >>= fun stop => pure (b, stop)) = _
  rw [usizeAdd_of_lt (by omega)]
  rfl

lemma noPanic_byteAt : NoPanic (byteAt bytes pos what) := by
  unfold byteAt
  split
  · next b hb =>
    have hlt := (List.getElem?_eq_some_iff.1 hb).1
    have hlen := length_lt bytes
    exact avoids_bind (noPanic_usizeAdd (by omega)) fun _ _ => avoids_ok _
  · exact noPanic_sqlPlan _

lemma readAt_eq_ok (h : readAt bytes pos n what = .ok (raw, stop)) :
    stop = pos + n ∧ stop ≤ bytes.1.length ∧ raw.length = n ∧
        slice bytes.1 pos stop = some raw := by
  obtain ⟨stop', hadd, h⟩ := bind_eq_ok.1 h
  obtain ⟨-, ⟨⟩⟩ := ite_error_right_eq_ok.1 hadd
  split at h
  · next m hm =>
    cases h
    obtain ⟨-, hle, hlen⟩ := slice_eq_some hm
    exact ⟨rfl, hle, by omega, hm⟩
  · cases h

lemma readAt_of_slice (what : String) (h : slice bytes.1 pos (pos + n) = some raw) :
    readAt bytes pos n what = .ok (raw, pos + n) := by
  have hle := (slice_eq_some h).2.1
  have hlen := length_lt bytes
  unfold readAt
  rw [usizeAdd_of_lt (by omega)]
  show (match slice bytes.1 pos (pos + n) with
    | some raw => pure (raw, pos + n)
    | none => Except.error (decodeError what)) = _
  rw [h]
  rfl

lemma noPanic_readAt (h : pos + n < 2 ^ 64) : NoPanic (readAt bytes pos n what) := by
  refine avoids_bind (noPanic_usizeAdd h) fun stop _ => ?_
  split
  · exact avoids_ok _
  · exact noPanic_sqlPlan _

lemma ofLe_four_lt (h : raw.length = 4) : ofLe raw < 2 ^ 32 := by
  have hlt := ofLe_lt raw
  rw [h] at hlt
  exact hlt

lemma decodeElems_eq_ok {values : List UInt32} (hpos : pos ≤ bytes.1.length)
    (h : decodeElems bytes dim pos = .ok (values, stop)) :
    stop = pos + dim * 4 ∧ stop ≤ bytes.1.length := by
  induction dim generalizing pos values with
  | zero =>
    cases h
    exact ⟨by omega, hpos⟩
  | succ dim ih =>
    obtain ⟨⟨raw, p⟩, hread, h⟩ := bind_eq_ok.1 h
    obtain ⟨⟨vs, q⟩, hrest, h⟩ := bind_eq_ok.1 h
    cases h
    obtain ⟨rfl, hle, -, -⟩ := readAt_eq_ok hread
    obtain ⟨rfl, hle'⟩ := ih hle hrest
    exact ⟨by omega, hle'⟩

lemma noPanic_decodeElems (hpos : pos ≤ bytes.1.length) :
    NoPanic (decodeElems bytes dim pos) := by
  have hlen := length_lt bytes
  induction dim generalizing pos with
  | zero => exact avoids_ok _
  | succ dim ih =>
    refine avoids_bind (noPanic_readAt (by omega)) fun ⟨raw, p⟩ hread => ?_
    obtain ⟨rfl, hle, -, -⟩ := readAt_eq_ok hread
    exact avoids_bind (ih hle) fun _ _ => avoids_ok _

end

/-! ## The skip walker against the decoder -/

section
variable {bytes : Slice} {pos stop : Nat} {col : ColumnDef} {v : Literal}
  {utf8Error : List UInt8 → String}

variable {what whatLen : String} {value : List UInt8 → Literal} {tag i : Nat}
  {columns : List ColumnDef} {needed : Bool}

lemma decodeFixed_eq_ok (h : decodeFixed bytes pos n what value = .ok (v, stop)) :
    stop = pos + n ∧ stop ≤ bytes.1.length := by
  obtain ⟨⟨raw, p⟩, hread, h⟩ := bind_eq_ok.1 h
  cases h
  obtain ⟨rfl, hle, -, -⟩ := readAt_eq_ok hread
  exact ⟨rfl, hle⟩

lemma decodeSized_eq_ok {value : List UInt8 → Except DbError Literal}
    (h : decodeSized bytes pos whatLen what value = .ok (v, stop)) :
    ∃ raw, slice bytes.1 pos (pos + 4) = some raw ∧ stop = pos + 4 + ofLe raw ∧
      stop ≤ bytes.1.length := by
  obtain ⟨⟨len, p⟩, hlen, h⟩ := bind_eq_ok.1 h
  obtain ⟨⟨raw, q⟩, hread, h⟩ := bind_eq_ok.1 h
  obtain ⟨lit, hvalue, ⟨⟩⟩ := bind_eq_ok.1 h
  obtain ⟨rfl, -, -, hslice⟩ := readAt_eq_ok hlen
  obtain ⟨rfl, hle, -, -⟩ := readAt_eq_ok hread
  exact ⟨len, hslice, rfl, hle⟩

lemma decodeVector_eq_ok (h : decodeVector bytes pos col = .ok (v, stop)) :
    ∃ raw, slice bytes.1 pos (pos + 4) = some raw ∧ stop = pos + 4 + ofLe raw * 4 ∧
      stop ≤ bytes.1.length := by
  obtain ⟨⟨raw, p⟩, hread, h⟩ := bind_eq_ok.1 h
  obtain ⟨-, -, h⟩ := bind_eq_ok.1 h
  obtain ⟨⟨values, q⟩, helems, h⟩ := bind_eq_ok.1 h
  cases h
  obtain ⟨rfl, hle, -, hslice⟩ := readAt_eq_ok hread
  obtain ⟨rfl, hle'⟩ := decodeElems_eq_ok hle helems
  exact ⟨raw, hslice, rfl, hle'⟩

lemma decodeDecimal_eq_ok (h : decodeDecimal bytes pos col = .ok (v, stop)) :
    stop = pos + 17 ∧ stop ≤ bytes.1.length := by
  obtain ⟨⟨raw, p⟩, hread, h⟩ := bind_eq_ok.1 h
  obtain ⟨⟨scale, q⟩, hbyte, h⟩ := bind_eq_ok.1 h
  obtain ⟨-, -, ⟨⟩⟩ := bind_eq_ok.1 h
  obtain ⟨rfl, -, -, -⟩ := readAt_eq_ok hread
  obtain ⟨-, rfl, hle⟩ := byteAt_eq_ok hbyte
  exact ⟨rfl, hle⟩

lemma usizeAdd_of_le (h : stop = pos + n ∧ stop ≤ bytes.1.length) :
    usizeAdd pos n = .ok stop ∧ stop ≤ bytes.1.length := by
  have hlen := length_lt bytes
  exact ⟨h.1 ▸ usizeAdd_of_lt (by omega), h.2⟩

lemma skip_sized (hslice : slice bytes.1 pos (pos + 4) = some raw)
    (hstop : stop = pos + 4 + ofLe raw) (hle : stop ≤ bytes.1.length) :
    (do let (raw, pos) ← readAt bytes pos 4 "truncated length"
        usizeAdd pos (ofLe raw)) = .ok stop ∧ stop ≤ bytes.1.length := by
  rw [readAt_of_slice _ hslice]
  exact usizeAdd_of_le ⟨hstop, hle⟩

lemma skip_vector (hslice : slice bytes.1 pos (pos + 4) = some raw)
    (hstop : stop = pos + 4 + ofLe raw * 4) (hle : stop ≤ bytes.1.length) :
    (do let (raw, pos) ← readAt bytes pos 4 "truncated length"
        usizeAdd pos (← usizeMul (ofLe raw) 4)) = .ok stop ∧ stop ≤ bytes.1.length := by
  have hlen := length_lt bytes
  rw [readAt_of_slice _ hslice]
  show (usizeMul (ofLe raw) 4 >>= fun n => usizeAdd (pos + 4) n) = _ ∧ _
  rw [usizeMul_of_lt (by omega)]
  exact usizeAdd_of_le ⟨hstop, hle⟩

lemma skipPayload_of_decode (hpos : pos ≤ bytes.1.length)
    (h : decodePayload utf8Error bytes pos col tag = .ok (v, stop)) :
    skipPayload bytes pos tag = .ok stop ∧ stop ≤ bytes.1.length := by
  have sized : ∀ {whatLen what : String} {value : List UInt8 → Except DbError Literal},
      decodeSized bytes pos whatLen what value = .ok (v, stop) →
      (do let (raw, pos) ← readAt bytes pos 4 "truncated length"
          usizeAdd pos (ofLe raw)) = .ok stop ∧ stop ≤ bytes.1.length := by
    intro whatLen what value h
    obtain ⟨raw, hslice, hstop, hle⟩ := decodeSized_eq_ok h
    exact skip_sized hslice hstop hle
  unfold decodePayload at h
  split at h
  · cases h
    exact ⟨rfl, hpos⟩
  · exact usizeAdd_of_le (decodeFixed_eq_ok h)
  · exact sized h
  · exact sized h
  · obtain ⟨⟨b, p⟩, hbyte, h⟩ := bind_eq_ok.1 h
    cases h
    exact usizeAdd_of_le (byteAt_eq_ok hbyte).2
  · obtain ⟨raw, hslice, hstop, hle⟩ := decodeVector_eq_ok h
    exact skip_vector hslice hstop hle
  · exact usizeAdd_of_le (decodeDecimal_eq_ok h)
  · exact usizeAdd_of_le (decodeFixed_eq_ok h)
  · exact usizeAdd_of_le (decodeFixed_eq_ok h)
  · exact usizeAdd_of_le (decodeFixed_eq_ok h)
  · exact sized h
  · exact usizeAdd_of_le (decodeFixed_eq_ok h)
  · exact usizeAdd_of_le (decodeFixed_eq_ok h)
  · cases h

theorem skipValueAt_of_decode (h : decodeValueAt utf8Error bytes pos col = .ok (v, stop)) :
    skipValueAt bytes pos = .ok stop ∧ stop ≤ bytes.1.length := by
  obtain ⟨⟨tag, p⟩, htag, h⟩ := bind_eq_ok.1 h
  obtain ⟨hget, rfl, hle⟩ := byteAt_eq_ok htag
  obtain ⟨hskip, hstop⟩ := skipPayload_of_decode hle h
  refine ⟨?_, hstop⟩
  rw [skipValueAt, byteAt_of_getElem? _ hget]
  exact hskip

/-! ## Arbitrary bytes -/

/-- What follows a length may rely on its being a `u32`. -/
lemma noPanic_readLength {α : Type} {f : Nat → Nat → Except DbError α}
    (hpos : pos ≤ bytes.1.length) (hf : ∀ n q, n < 2 ^ 32 → q ≤ bytes.1.length → NoPanic (f n q)) :
    NoPanic (do
        let (raw, q) ← readAt bytes pos 4 what
        f (ofLe raw) q) := by
  have hlen := length_lt bytes
  refine avoids_bind (noPanic_readAt (by omega)) fun ⟨raw, q⟩ hread => ?_
  obtain ⟨-, hle, hraw, -⟩ := readAt_eq_ok hread
  exact hf _ _ (ofLe_four_lt hraw) hle

lemma noPanic_skipPayload (hpos : pos ≤ bytes.1.length) :
    NoPanic (skipPayload bytes pos tag) := by
  have hlen := length_lt bytes
  have fixed : ∀ n, n ≤ 17 → NoPanic (usizeAdd pos n) := fun n hn => noPanic_usizeAdd (by omega)
  have sized : NoPanic (do let (raw, q) ← readAt bytes pos 4 "truncated length"
                           usizeAdd q (ofLe raw)) :=
    noPanic_readLength hpos (f := fun n q => usizeAdd q n) fun n q hn hq =>
      noPanic_usizeAdd (by omega)
  unfold skipPayload
  split
  · exact avoids_ok _
  iterate 8 · exact fixed _ (by decide)
  · exact sized
  · exact sized
  · exact sized
  · refine noPanic_readLength hpos (f := fun n q => usizeMul n 4 >>= usizeAdd q) fun n q hn hq => ?_
    rw [usizeMul_of_lt (by omega)]
    exact noPanic_usizeAdd (by omega)
  · exact noPanic_sqlPlan _

lemma noPanic_skipValueAt : NoPanic (skipValueAt bytes pos) := by
  refine avoids_bind noPanic_byteAt fun ⟨tag, p⟩ htag => ?_
  exact noPanic_skipPayload (byteAt_eq_ok htag).2.2

lemma noPanic_fromUtf8 {value : String → Literal} : NoPanic (fromUtf8 utf8Error value raw) := by
  unfold fromUtf8
  split
  · exact avoids_ok _
  · exact noPanic_sqlPlan _

lemma noPanic_checkDimension : NoPanic (checkDimension col dim) := by
  unfold checkDimension
  split
  · split
    · exact noPanic_sqlPlan _
    · exact avoids_ok _
  · exact avoids_ok _

lemma noPanic_checkScale {scale : Nat} : NoPanic (checkScale col scale) := by
  unfold checkScale
  split
  · split
    · exact noPanic_sqlPlan _
    · exact avoids_ok _
  · exact avoids_ok _

lemma noPanic_decodeFixed (h : pos + n < 2 ^ 64) : NoPanic (decodeFixed bytes pos n what value) :=
  avoids_bind (noPanic_readAt h) fun _ _ => avoids_ok _

section
variable (hpos : pos ≤ bytes.1.length)

include hpos

lemma noPanic_decodeSized {value : List UInt8 → Except DbError Literal}
    (hvalue : ∀ raw, NoPanic (value raw)) :
    NoPanic (decodeSized bytes pos whatLen what value) := by
  have hlen := length_lt bytes
  refine noPanic_readLength hpos (f := fun n q => do
    let (raw, q) ← readAt bytes q n what
    pure (← value raw, q)) fun n q hn hq => ?_
  refine avoids_bind (noPanic_readAt (by omega)) fun ⟨raw, q⟩ _ => ?_
  exact avoids_bind (hvalue raw) fun _ _ => avoids_ok _

lemma noPanic_decodeVector : NoPanic (decodeVector bytes pos col) := by
  refine noPanic_readLength hpos (f := fun n q => do
    checkDimension col n
    let (values, q) ← decodeElems bytes n q
    pure (Literal.vector values, q)) fun n q _ hq => ?_
  refine avoids_bind noPanic_checkDimension fun _ _ => ?_
  exact avoids_bind (noPanic_decodeElems hq) fun _ _ => avoids_ok _

lemma noPanic_decodeDecimal : NoPanic (decodeDecimal bytes pos col) := by
  have hlen := length_lt bytes
  refine avoids_bind (noPanic_readAt (by omega)) fun _ _ => ?_
  refine avoids_bind noPanic_byteAt fun _ _ => ?_
  exact avoids_bind noPanic_checkScale fun _ _ => avoids_ok _

lemma noPanic_decodePayload : NoPanic (decodePayload utf8Error bytes pos col tag) := by
  have hlen := length_lt bytes
  have text : ∀ (value : String → Literal) (raw : List UInt8),
    NoPanic (fromUtf8 utf8Error value raw) := fun value raw => noPanic_fromUtf8
  unfold decodePayload
  split
  · exact avoids_ok _
  · exact noPanic_decodeFixed (by omega)
  · exact noPanic_decodeSized hpos (text _)
  · exact noPanic_decodeSized hpos (text _)
  · exact avoids_bind noPanic_byteAt fun _ _ => avoids_ok _
  · exact noPanic_decodeVector hpos
  · exact noPanic_decodeDecimal hpos
  · exact noPanic_decodeFixed (by omega)
  · exact noPanic_decodeFixed (by omega)
  · exact noPanic_decodeFixed (by omega)
  · exact noPanic_decodeSized hpos fun _ => avoids_ok _
  · exact noPanic_decodeFixed (by omega)
  · exact noPanic_decodeFixed (by omega)
  · exact noPanic_sqlPlan _

end

lemma noPanic_decodeValueAt : NoPanic (decodeValueAt utf8Error bytes pos col) := by
  refine avoids_bind noPanic_byteAt fun ⟨tag, p⟩ htag => ?_
  exact noPanic_decodePayload (byteAt_eq_ok htag).2.2

variable {rt : Runtime} {profile : Profile}

lemma noPanic_missingColumnDefault_iff :
    NoPanic (missingColumnDefault rt profile col) ↔ (profile = .debug → DefaultFits rt col) := by
  unfold missingColumnDefault DefaultFits
  cases col.constraints.default with
  | none => exact iff_of_true (avoids_ok _) fun _ => nofun
  | some default =>
    simp only [Option.some.injEq, forall_eq', ← noPanic_coerceValue_iff rt profile ""]
    split
    · next h => exact iff_of_true (avoids_ok _) (h ▸ avoids_ok _)
    · next h => rw [h]
    · next e he h => exact iff_of_true (avoids_ok _) (h ▸ avoids_error (by simpa using he))

lemma noPanic_decodeRowFrom (hcols : ∀ col ∈ columns,
    NoPanic (missingColumnDefault rt profile col)) :
    NoPanic (decodeRowFrom utf8Error rt profile bytes pos columns) := by
  induction columns generalizing pos with
  | nil => exact avoids_ok _
  | cons col columns ih =>
    obtain ⟨hcol, hcols⟩ := List.forall_mem_cons.1 hcols
    unfold decodeRowFrom
    split
    · refine avoids_bind hcol fun _ _ => ?_
      exact avoids_bind (ih hcols) fun _ _ => avoids_ok _
    · refine avoids_bind noPanic_decodeValueAt fun _ _ => ?_
      exact avoids_bind (ih hcols) fun _ _ => avoids_ok _

lemma missingColumnDefault_eq_error {e : DbError}
    (h : missingColumnDefault rt profile col = .error e) : e = .panicked := by
  unfold missingColumnDefault at h
  split at h
  · split at h <;> cases h
    rfl
  · cases h

/-- Behind the last byte of a row every column is decoded as its default. -/
lemma noPanic_missing_of_decode (hend : bytes.1.length ≤ pos)
    (h : NoPanic (decodeRowFrom utf8Error rt profile bytes pos columns)) :
    ∀ col ∈ columns, NoPanic (missingColumnDefault rt profile col) := by
  induction columns with
  | nil => exact fun _ hcol => absurd hcol List.not_mem_nil
  | cons col columns ih =>
    rw [decodeRowFrom, if_pos hend] at h
    cases hcol : missingColumnDefault rt profile col with
    | error e =>
      obtain rfl := missingColumnDefault_eq_error hcol
      rw [hcol] at h
      exact absurd rfl h
    | ok v =>
      have hrest : NoPanic (decodeRowFrom utf8Error rt profile bytes pos columns) := by
        intro hpanic
        rw [hcol, hpanic] at h
        exact h rfl
      exact List.forall_mem_cons.2 ⟨hcol ▸ avoids_ok v, ih hrest⟩

lemma noPanic_deformColumn (hcol : NoPanic (missingColumnDefault rt profile col)) :
    NoPanic (deformColumn utf8Error rt profile bytes pos col needed) := by
  unfold deformColumn
  split
  · split
    · exact avoids_bind hcol fun _ _ => avoids_ok _
    · exact avoids_ok _
  · split
    · exact noPanic_decodeValueAt
    · exact avoids_bind noPanic_skipValueAt fun _ _ => avoids_ok _

lemma noPanic_deformRowFrom {upto : Nat} {needed : List Bool}
    (hcols : ∀ col ∈ columns, NoPanic (missingColumnDefault rt profile col))
    (hlen : i + columns.length ≤ needed.length) :
    NoPanic (deformRowFrom utf8Error rt profile bytes upto needed i pos columns) := by
  induction columns generalizing pos i with
  | nil => exact avoids_ok _
  | cons col columns ih =>
    obtain ⟨hcol, hcols⟩ := List.forall_mem_cons.1 hcols
    rw [List.length_cons] at hlen
    have hmask : readMask needed i = .ok (needed.get ⟨i, by omega⟩) := by
      rw [readMask, List.getElem?_eq_getElem (by omega)]
      rfl
    unfold deformRowFrom
    split
    · exact avoids_ok _
    · refine avoids_bind (hmask ▸ avoids_ok _) fun _ _ => ?_
      refine avoids_bind (noPanic_deformColumn hcol) fun _ _ => ?_
      exact avoids_bind (ih hcols (by omega)) fun _ _ => avoids_ok _

/-! ## The two walkers against each other -/

/-- One column: the walker goes where the decoder goes, and a needed value is the decoder's. -/
lemma deformColumn_of_decode {w : Literal} {q : Nat} (hpos : pos < bytes.1.length)
    (hv : decodeValueAt utf8Error bytes pos col = .ok (v, stop))
    (hw : deformColumn utf8Error rt profile bytes pos col needed = .ok (w, q)) :
    q = stop ∧ (needed = true → w = v) := by
  rw [deformColumn, if_neg (by omega)] at hw
  cases needed with
  | true =>
    rw [hv] at hw
    cases hw
    exact ⟨rfl, fun _ => rfl⟩
  | false =>
    rw [(skipValueAt_of_decode hv).1] at hw
    cases hw
    exact ⟨rfl, nofun⟩

lemma deformColumn_of_missing {w : Literal} {q : Nat} (hpos : bytes.1.length ≤ pos)
    (hv : missingColumnDefault rt profile col = .ok v)
    (hw : deformColumn utf8Error rt profile bytes pos col needed = .ok (w, q)) :
    q = pos ∧ (needed = true → w = v) := by
  rw [deformColumn, if_pos hpos] at hw
  cases needed with
  | true =>
    rw [hv] at hw
    cases hw
    exact ⟨rfl, fun _ => rfl⟩
  | false =>
    cases hw
    exact ⟨rfl, nofun⟩

lemma readMask_eq_ok {needed : List Bool} {b : Bool} :
    readMask needed i = .ok b ↔ needed[i]? = some b := by
  unfold readMask
  cases needed[i]? with
  | none => simp
  | some c => simp

lemma deformRowFrom_of_decode {upto : Nat} {needed : List Bool} {vs ws : Row}
    (hle : ∀ j, needed[j]? = some true → j ≤ upto)
    (hv : decodeRowFrom utf8Error rt profile bytes pos columns = .ok vs)
    (hw : deformRowFrom utf8Error rt profile bytes upto needed i pos columns = .ok ws) (j : Nat)
    (hj : needed[i + j]? = some true) : ws[j]? = vs[j]? := by
  induction columns generalizing pos i vs ws j with
  | nil =>
    cases hv
    cases hw
    rfl
  | cons col columns ih =>
    have hupto := hle _ hj
    rw [deformRowFrom, if_neg (by omega)] at hw
    obtain ⟨b, hb, hw⟩ := bind_eq_ok.1 hw
    obtain ⟨⟨w, q⟩, hcol, hw⟩ := bind_eq_ok.1 hw
    obtain ⟨ws', hrest, ⟨⟩⟩ := bind_eq_ok.1 hw
    -- Either way the decoder has a value `v` here and goes on from where the walker does.
    obtain ⟨v, vs', rfl, hq, hneeded⟩ : ∃ v vs', vs = v :: vs' ∧
        decodeRowFrom utf8Error rt profile bytes q columns = .ok vs' ∧ (b = true → w = v) := by
      rw [decodeRowFrom] at hv
      split at hv
      · next hend =>
        obtain ⟨v, hdefault, hv⟩ := bind_eq_ok.1 hv
        obtain ⟨vs', hvs', ⟨⟩⟩ := bind_eq_ok.1 hv
        obtain ⟨rfl, hneeded⟩ := deformColumn_of_missing hend hdefault hcol
        exact ⟨v, vs', rfl, hvs', hneeded⟩
      · next hend =>
        obtain ⟨⟨v, p⟩, hvalue, hv⟩ := bind_eq_ok.1 hv
        obtain ⟨vs', hvs', ⟨⟩⟩ := bind_eq_ok.1 hv
        obtain ⟨rfl, hneeded⟩ := deformColumn_of_decode (by omega) hvalue hcol
        exact ⟨v, vs', rfl, hvs', hneeded⟩
    cases j with
    | zero =>
      have hbit : b = true := by
        have hget := readMask_eq_ok.1 hb
        rw [Nat.add_zero] at hj
        rw [hj] at hget
        exact (Option.some.inj hget).symm
      simp [hneeded hbit]
    | succ j =>
      exact ih hq hrest j (by rw [← hj]; congr 1; omega)

end

/-- On arbitrary bytes neither walker panics, whatever the mask, and where both return they agree at
every needed position. -/
structure RejectsCorrupt (utf8Error : List UInt8 → String) (rt : Runtime) (profile : Profile)
    (columns : List ColumnDef) : Prop where
  decodes : ∀ bytes, NoPanic (decodeRow utf8Error rt profile bytes columns)
  deforms : ∀ bytes, ∀ mask : Mask columns,
    NoPanic (deformRow utf8Error rt profile bytes columns mask.upto mask.needed)
  agree : ∀ bytes, ∀ mask : Mask columns, ∀ vs ws,
    decodeRow utf8Error rt profile bytes columns = .ok vs →
    deformRow utf8Error rt profile bytes columns mask.upto mask.needed = .ok ws →
    ∀ i : Nat, mask.needed[i]? = some true → ws[i]? = vs[i]?

/-- **Corrupt rows are rejected, never misread**: in a release build whatever the columns, in a
debug build exactly where no default of a column is a temporal text whose arithmetic overflows. -/
theorem corrupt_rows_rejected_iff (utf8Error : List UInt8 → String) (rt : Runtime)
    (profile : Profile) (columns : List ColumnDef) : RejectsCorrupt utf8Error rt profile columns ↔
      (profile = .debug → ∀ col ∈ columns, DefaultFits rt col) := by
  have hfits : (∀ col ∈ columns, NoPanic (missingColumnDefault rt profile col)) ↔
      (profile = .debug → ∀ col ∈ columns, DefaultFits rt col) := by
    simp only [noPanic_missingColumnDefault_iff]
    exact ⟨fun h hp col hcol => h col hcol hp, fun h col hcol hp => h hp col hcol⟩
  rw [← hfits]
  constructor
  · intro h
    have hempty := h.decodes ⟨[], Nat.zero_le _⟩
    exact noPanic_missing_of_decode (Nat.le_refl 0) hempty
  · intro h
    refine ⟨fun bytes => noPanic_decodeRowFrom h,
      fun bytes mask => noPanic_deformRowFrom h (by simp [mask.length_eq]), ?_⟩
    intro bytes mask vs ws hv hw i hi
    exact deformRowFrom_of_decode mask.le_upto hv hw i (by rwa [Nat.zero_add])

def farColumn : ColumnDef where
  name := "t"
  ty := .timestamp
  constraints := { default := some (.text "9223372036854775807-01-01") }

/-- **A default the debug build cannot coerce**: a row written before the column was added makes
both walkers panic. -/
theorem farDefault_panics :
    decodeRow (fun _ => "") default .debug ⟨[], Nat.zero_le _⟩ [farColumn] = .error .panicked ∧
      ¬RejectsCorrupt (fun _ => "") default .debug [farColumn] := by
  have hpanic : decodeRow (fun _ => "") default .debug ⟨[], Nat.zero_le _⟩ [farColumn] =
      .error .panicked := rfl
  exact ⟨hpanic, fun h => h.decodes _ hpanic⟩

end UniDb.Codec
