import KptrOS.Uacpi.FormatParse

/-!
# What the writers of `uacpi_vsnprintf` write

Each writer appends a text to what was meant for the buffer before it; the buffer keeps what
fits. None of them leaves its buffer, also not the 32 bytes in which an integer is prepared.

- `Written`: the buffer and its count after a text. `Emits`: a writer that appends a text.
- `numeralText`, `integerText`: an integer in base 8, 10 or 16, and with the sign, the prefix
  and the padding of a directive.
- `writeOne_emits`, `writeMany_emits`, `writePadding_emits`, `writeInteger_emits`: the writers
  and their texts; `writeString_text`: the text of a string.
- `writeInteger_total`: it succeeds on every buffer.
-/

namespace KptrOS

open CSem

/-! ## Writers -/

section

variable {n : Nat}

/-- `text` was meant for the buffer, which keeps what fits. -/
structure Written (text : List Byte) (fb : FmtBufState n) : Prop where
  count : fb.bytesWritten = text.length
  holds : fb.buffer.Holds 0 (text.take n)

/-- A writer that appends `text`, as long as the counter does not overflow. -/
def Emits (write : FmtBufState n → Exec (FmtBufState n)) (text : List Byte) : Prop :=
  ∀ done fb, Written done fb → (done ++ text).length < 2 ^ 64 →
    ∃ fb', write fb = .ok fb' ∧ Written (done ++ text) fb'

/-- A writer that never faults. -/
def Total (write : FmtBufState n → Exec (FmtBufState n)) : Prop := ∀ fb, ∃ fb', write fb = .ok fb'

theorem emits_nil : Emits (n := n) (fun fb => .ok fb) [] := by
  intro done fb hfb _
  exact ⟨fb, rfl, by rwa [List.append_nil]⟩

theorem Emits.bind {write write' : FmtBufState n → Exec (FmtBufState n)}
    {text text' : List Byte} (h : Emits write text) (h' : Emits write' text') :
    Emits (fun fb => write fb >>= write') (text ++ text') := by
  intro done fb hfb hlen
  rw [← List.append_assoc] at hlen ⊢
  obtain ⟨fb', hrun, hfb'⟩ := h done fb hfb
    (Nat.lt_of_le_of_lt (List.prefix_append (done ++ text) text').length_le hlen)
  obtain ⟨fb'', hrun', hfb''⟩ := h' _ fb' hfb' hlen
  refine ⟨fb'', ?_, hfb''⟩
  dsimp only
  rw [hrun]
  exact hrun'

theorem Total.bind {write write' : FmtBufState n → Exec (FmtBufState n)} (h : Total write)
    (h' : Total write') : Total (fun fb => write fb >>= write') := by
  intro fb
  obtain ⟨fb', hrun⟩ := h fb
  obtain ⟨fb'', hrun'⟩ := h' fb'
  refine ⟨fb'', ?_⟩
  dsimp only
  rw [hrun]
  exact hrun'

/-- A copy that stays inside the buffer. -/
theorem copyInto_ok {i : Nat} (string : List Byte) (buffer : Arr n Byte)
    (hroom : i + string.length ≤ n) :
    ∃ buffer', copyInto buffer i string = .ok buffer' ∧ buffer'.Holds i string ∧
      ∀ j, j < i ∨ i + string.length ≤ j → buffer'.get j = buffer.get j := by
  induction string generalizing i buffer with
  | nil => exact ⟨buffer, rfl, Arr.holds_nil buffer i, fun j _ => rfl⟩
  | cons c string ih =>
    rw [List.length_cons] at hroom
    have hi : i < n := by omega
    obtain ⟨buffer', hrun, hholds, hframe⟩ := ih (i := i + 1) (buffer.put i c) (by omega)
    refine ⟨buffer', ?_, Arr.holds_cons.mpr ⟨?_, hholds⟩, fun j hj => ?_⟩
    · rw [copyInto, Arr.set_of_lt _ hi, ok_bind, hrun]
    · rw [hframe i (.inl (Nat.lt_succ_self i)), Arr.get_put_self _ hi]
    · rw [List.length_cons] at hj
      rw [hframe j (by omega), Arr.get_put_of_ne _ (by omega)]

theorem Written.count_lt {text : List Byte} {fb : FmtBufState n} (h : Written text fb)
    {more : Nat} (hlen : text.length + more < 2 ^ 64) :
    (fb.bytesWritten + more) % 2 ^ 64 = text.length + more := by
  rw [h.count, Nat.mod_eq_of_lt hlen]

theorem writeMany_total (string : List Byte) : Total (n := n) (writeMany string) := by
  intro fb
  rw [writeMany]
  by_cases hroom : fb.bytesWritten < n
  · rw [if_pos hroom]
    dsimp only
    obtain ⟨buffer', hrun, -, -⟩ := copyInto_ok (i := fb.bytesWritten)
      (string.take (min string.length (n - fb.bytesWritten))) fb.buffer
      (by rw [List.length_take]; omega)
    rw [hrun]
    exact ⟨_, rfl⟩
  · exact ⟨_, if_neg hroom⟩

theorem writeMany_emits (string : List Byte) : Emits (n := n) (writeMany string) string := by
  intro done fb hfb hlen
  rw [List.length_append] at hlen
  have hcount : (fb.bytesWritten + string.length) % 2 ^ 64 = (done ++ string).length := by
    rw [List.length_append]
    exact hfb.count_lt hlen
  rw [writeMany]
  by_cases hroom : fb.bytesWritten < n
  · rw [if_pos hroom]
    dsimp only
    have hdone : done.length < n := hfb.count ▸ hroom
    obtain ⟨buffer', hrun, hholds, hframe⟩ := copyInto_ok (i := fb.bytesWritten)
      (string.take (min string.length (n - fb.bytesWritten))) fb.buffer
      (by rw [List.length_take]; omega)
    rw [hrun]
    refine ⟨_, rfl, hcount, ?_⟩
    -- what was kept before is below the copy
    have hkept : (done ++ string).take n =
        done ++ string.take (min string.length (n - fb.bytesWritten)) := by
      rw [List.take_append, List.take_of_length_le (Nat.le_of_lt hdone), hfb.count, Nat.min_comm,
        ← List.take_take, List.take_length]
    have hold := hfb.holds
    rw [List.take_of_length_le (Nat.le_of_lt hdone)] at hold
    rw [hkept]
    refine Arr.holds_append.mpr ⟨hold.congr fun j _ hj => hframe j (.inl ?_), ?_⟩
    · rwa [hfb.count, ← Nat.zero_add done.length]
    · rw [Nat.zero_add, ← hfb.count]
      exact hholds
  · refine ⟨_, if_neg hroom, hcount, ?_⟩
    have hdone : n ≤ done.length := hfb.count ▸ Nat.le_of_not_lt hroom
    rw [List.take_append_of_le_length hdone]
    exact hfb.holds

theorem writeOne_eq_writeMany (c : Byte) : writeOne (n := n) c = writeMany [c] := by
  funext fb
  rw [writeOne, writeMany]
  by_cases hroom : fb.bytesWritten < n
  · have hone : min [c].length (n - fb.bytesWritten) = 1 := by
      rw [List.length_singleton]
      omega
    rw [if_pos hroom, if_pos hroom, hone]
    dsimp only [List.take_succ_cons, List.take_zero, copyInto]
    rw [bind_assoc]
    rfl
  · rw [if_neg hroom, if_neg hroom]
    rfl

theorem writeOne_emits (c : Byte) : Emits (n := n) (writeOne c) [c] := by
  rw [writeOne_eq_writeMany]
  exact writeMany_emits [c]

theorem writeOne_total (c : Byte) : Total (n := n) (writeOne c) := by
  rw [writeOne_eq_writeMany]
  exact writeMany_total [c]

theorem writeRepeated_emits (c : Byte) (count : Nat) :
    Emits (n := n) (writeRepeated c count) (List.replicate count c) := by
  induction count with
  | zero => exact emits_nil
  | succ count ih => exact (writeOne_emits c).bind ih

theorem writeRepeated_total (c : Byte) (count : Nat) :
    Total (n := n) (writeRepeated c count) := by
  induction count with
  | zero => exact fun fb => ⟨fb, rfl⟩
  | succ count ih => exact (writeOne_total c).bind ih

/-- The padding of a text of `reprSize` characters. -/
def FmtSpec.padding (fm : FmtSpec) (reprSize : Nat) : List Byte :=
  List.replicate (fm.minWidth.toNat - reprSize) (if fm.leftJustify then 32 else fm.padChar)

theorem writePadding_eq (fm : FmtSpec) (reprSize : Nat) (fb : FmtBufState n) :
    writePadding fm reprSize fb = writeRepeated (if fm.leftJustify then 32 else fm.padChar)
      (fm.minWidth.toNat - reprSize) fb := by
  rw [writePadding]
  by_cases hfits : fm.minWidth.toNat ≤ reprSize
  · rw [if_pos hfits, Nat.sub_eq_zero_of_le hfits]
    rfl
  · rw [if_neg hfits]

theorem writePadding_emits (fm : FmtSpec) (reprSize : Nat) :
    Emits (n := n) (writePadding fm reprSize) (fm.padding reprSize) := by
  rw [funext (writePadding_eq fm reprSize)]
  exact writeRepeated_emits _ _

theorem writePadding_total (fm : FmtSpec) (reprSize : Nat) :
    Total (n := n) (writePadding fm reprSize) := by
  rw [funext (writePadding_eq fm reprSize)]
  exact writeRepeated_total _ _

end

/-! ## Integers -/

/-- The character of a digit in lower case. -/
def lowerHexDigit (d : Nat) : Byte := BitVec.ofNat 8 (if d < 10 then 48 + d else 87 + d)

/-- The character of a digit. -/
def digitChar (uppercase : Bool) (d : Nat) : Byte :=
  if uppercase then hexDigit d else lowerHexDigit d

/-- The digits of a number, the highest first; 0 has one. -/
def numeralDigits (base v : Nat) : List Nat :=
  (if v = 0 then [0] else Nat.digits base v).reverse

/-- A number in some base. -/
def numeralText (base : Nat) (uppercase : Bool) (v : Nat) : List Byte :=
  (numeralDigits base v).map (digitChar uppercase)

/-- The prefix of the alternate form. -/
def FmtSpec.prefixText (fm : FmtSpec) : List Byte :=
  if fm.alternateForm then
    if fm.base = 16 then [48, if fm.uppercase then 88 else 120]
    else if fm.base = 8 then [48] else []
  else []

/-- Text and padding, on the side that the directive asks for. -/
def FmtSpec.padded (fm : FmtSpec) (text : List Byte) : List Byte :=
  if fm.leftJustify then text ++ fm.padding text.length else fm.padding text.length ++ text

/-- The sign, or what stands in its place. -/
def FmtSpec.signText (fm : FmtSpec) (negative : Bool) : List Byte :=
  if fm.prepend || negative then [if negative then 45 else fm.prependChar] else []

/-- The text of an integer. The sign is in front of the padding and not part of the width. -/
def integerText (fm : FmtSpec) (value : Word) : List Byte :=
  let negative := fm.isSigned && value.slt 0
  let magnitude := if negative then -value else value
  fm.signText negative ++
    fm.padded (fm.prefixText ++ numeralText fm.base.toNat fm.uppercase magnitude.toNat)

/-- The bases that a specifier can ask for. -/
def FmtSpec.BaseOk (fm : FmtSpec) : Prop := fm.base = 8 ∨ fm.base = 10 ∨ fm.base = 16

theorem FmtSpec.BaseOk.toNat {fm : FmtSpec} (h : fm.BaseOk) :
    fm.base.toNat = 8 ∨ fm.base.toNat = 10 ∨ fm.base.toNat = 16 := by
  rcases h with h | h | h <;> rw [h]
  · exact .inl rfl
  · exact .inr (.inl rfl)
  · exact .inr (.inr rfl)

theorem lowerHex_get : ∀ d, d < 16 → lowerHex.get d = .ok (lowerHexDigit d) := by decide

theorem digitChar_decimal :
    ∀ uppercase d, d < 10 → digitChar uppercase d = BitVec.ofNat 8 (48 + d) := by decide

theorem reprChar_ok {fm : FmtSpec} (hbase : fm.BaseOk) {remainder : Word}
    (hlt : remainder.toNat < fm.base.toNat) :
    reprChar fm remainder = .ok (digitChar fm.uppercase remainder.toNat) := by
  rw [reprChar]
  by_cases h16 : fm.base = 16
  · rw [h16] at hlt
    rw [if_pos h16, hexChar, digitChar]
    cases fm.uppercase with
    | false => exact lowerHex_get _ hlt
    | true => exact hexDigits_get hlt
  · have hten : fm.base = 8 ∨ fm.base = 10 := by
      rcases hbase with h | h | h
      · exact .inl h
      · exact .inr h
      · exact absurd h h16
    have hlt10 : remainder.toNat < 10 := by
      rcases hten with h | h <;> rw [h] at hlt
      · exact Nat.lt_trans hlt (by decide)
      · exact hlt
    rw [if_neg h16, if_pos hten, digitChar_decimal _ _ hlt10]
    congr 1
    refine BitVec.eq_of_toNat_eq ?_
    rw [BitVec.toNat_add, BitVec.toNat_setWidth, BitVec.toNat_ofNat, Nat.add_comm]
    show (48 + _) % 2 ^ 8 = _
    omega

/-- The bytes of `repr_buffer` from `index` on. -/
structure ReprHolds (text : List Byte) (repr : Nat × Arr 32 Byte) : Prop where
  index : repr.1 + text.length = 32
  holds : repr.2.Holds repr.1 text

theorem pushRepr_ok {text : List Byte} {repr : Nat × Arr 32 Byte} (h : ReprHolds text repr)
    (hroom : text.length < 32) (c : Byte) :
    ∃ repr', pushRepr c repr = .ok repr' ∧ ReprHolds (c :: text) repr' := by
  obtain ⟨index, repr⟩ := repr
  have hindex : index + text.length = 32 := h.index
  cases index with
  | zero => omega
  | succ index =>
    have hi : index < 32 := by omega
    refine ⟨(index, repr.put index c), ?_, ?_, Arr.holds_cons.mpr ⟨?_, ?_⟩⟩
    · rw [pushRepr, Arr.set_of_lt _ hi]
      rfl
    · show index + (text.length + 1) = 32
      omega
    · exact Arr.get_put_self _ hi c
    · exact h.holds.congr fun j hj _ => Arr.get_put_of_ne _ (Nat.ne_of_gt hj) c

/-- The digit loop. -/
theorem writeIntegerLoop_ok {fm : FmtSpec} (hbase : fm.BaseOk) {bound : Nat} {value : Word}
    (hbound : (Nat.digits fm.base.toNat value.toNat).length < bound) {text : List Byte}
    {repr : Nat × Arr 32 Byte} (hrepr : ReprHolds text repr)
    (hroom : (Nat.digits fm.base.toNat value.toNat).length + text.length ≤ 32) :
    ∃ repr', writeIntegerLoop fm bound value repr = .ok repr' ∧
      ReprHolds ((Nat.digits fm.base.toNat value.toNat).reverse.map (digitChar fm.uppercase) ++
        text) repr' := by
  have hb : 1 < fm.base.toNat := by
    rcases hbase.toNat with h | h | h <;> rw [h] <;> decide
  have hb0 : fm.base ≠ 0 := by
    intro h
    rw [h] at hb
    exact absurd hb (by decide)
  induction bound generalizing value text repr with
  | zero => exact absurd hbound (Nat.not_lt_zero _)
  | succ bound ih =>
    rw [writeIntegerLoop]
    by_cases hzero : value = 0
    · rw [if_pos hzero, hzero]
      exact ⟨repr, rfl, by simpa using hrepr⟩
    · have hpos : 0 < value.toNat := Nat.pos_of_ne_zero fun h => hzero (BitVec.eq_of_toNat_eq h)
      have hdigits := Nat.digits_def' hb hpos
      rw [← BitVec.toNat_umod, ← BitVec.toNat_udiv] at hdigits
      rw [hdigits, List.length_cons] at hbound hroom
      have hlt : (value % fm.base).toNat < fm.base.toNat := by
        rw [BitVec.toNat_umod]
        exact Nat.mod_lt _ (Nat.lt_trans Nat.zero_lt_one hb)
      obtain ⟨repr', hpush, hrepr'⟩ := pushRepr_ok hrepr (by omega)
        (digitChar fm.uppercase (value % fm.base).toNat)
      obtain ⟨repr'', hrun, hrepr''⟩ := ih
        (by omega : (Nat.digits fm.base.toNat (value / fm.base).toNat).length < bound) hrepr'
        (by rw [List.length_cons]; omega)
      refine ⟨repr'', ?_, ?_⟩
      · rw [if_neg hzero, udiv_of_ne_zero _ hb0, ok_bind, reprChar_ok hbase hlt, ok_bind, hpush,
          ok_bind, hrun]
      · rwa [hdigits, List.reverse_cons, List.map_append, List.append_assoc]

/-- A value has no more than 22 digits. -/
theorem digits_length_le {fm : FmtSpec} (hbase : fm.BaseOk) (value : Word) :
    (Nat.digits fm.base.toNat value.toNat).length ≤ 22 := by
  have hlt : value.toNat < 8 ^ 22 := value.isLt.trans (by decide)
  have hle : value.toNat < fm.base.toNat ^ 22 := by
    refine hlt.trans_le (Nat.pow_le_pow_left ?_ 22)
    rcases hbase.toNat with h | h | h <;> rw [h] <;> decide
  refine (Nat.digits_length_le_iff ?_ _).mpr hle
  rcases hbase.toNat with h | h | h <;> rw [h] <;> decide

/-- What is in `repr_buffer` in the end. -/
theorem ReprHolds.drop_eq {text : List Byte} {repr : Nat × Arr 32 Byte}
    (h : ReprHolds text repr) : (List.ofFn repr.2.elem).drop repr.1 = text := by
  obtain ⟨rest, hrest⟩ := h.holds.drop_ofFn
  have hlen := congrArg List.length hrest
  have hindex := h.index
  rw [List.length_drop, List.length_ofFn, List.length_append] at hlen
  rw [hrest, List.length_eq_zero_iff.mp (by omega : rest.length = 0), List.append_nil]

theorem numeralText_ne_nil (base : Nat) (uppercase : Bool) (v : Nat) :
    numeralText base uppercase v ≠ [] := by
  rw [numeralText, numeralDigits, ne_eq, List.map_eq_nil_iff, List.reverse_eq_nil_iff]
  by_cases hv : v = 0
  · rw [if_pos hv]
    exact List.cons_ne_nil 0 []
  · rw [if_neg hv]
    exact Nat.digits_ne_nil_iff_ne_zero.mpr hv

/-- The digits, with a `0` for the number 0. -/
theorem writeIntegerDigits_ok {fm : FmtSpec} (hbase : fm.BaseOk) (value : Word) :
    ∃ repr repr', writeIntegerLoop fm 65 value (32, .const 32 0) = .ok repr ∧
      (if repr.1 = 32 then pushRepr 48 repr else pure repr) = .ok repr' ∧
      ReprHolds (numeralText fm.base.toNat fm.uppercase value.toNat) repr' ∧
      (numeralText fm.base.toNat fm.uppercase value.toNat).length ≤ 22 := by
  have hlen := digits_length_le hbase value
  have hempty : ReprHolds [] (32, Arr.const 32 0) := ⟨rfl, Arr.holds_nil _ _⟩
  obtain ⟨repr, hrun, hrepr⟩ := writeIntegerLoop_ok hbase (by omega : _ < 65) hempty
    (hlen.trans (by decide))
  rw [List.append_nil] at hrepr
  have hindex := hrepr.index
  rw [List.length_map, List.length_reverse] at hindex
  rw [numeralText, numeralDigits]
  by_cases hv : value.toNat = 0
  · rw [hv, Nat.digits_zero] at hindex hrepr
    obtain ⟨repr', hpush, hrepr'⟩ := pushRepr_ok hrepr (Nat.zero_lt_succ 31) 48
    have hzero : digitChar fm.uppercase 0 = 48 := by cases fm.uppercase <;> rfl
    rw [if_pos hv, List.reverse_singleton, List.map_singleton, hzero]
    exact ⟨repr, repr', hrun, (if_pos hindex).trans hpush, hrepr', by decide⟩
  · have hpos := List.length_pos_iff.mpr (Nat.digits_ne_nil_iff_ne_zero (b := fm.base.toNat).mpr hv)
    rw [if_neg hv]
    refine ⟨repr, repr, hrun, by rw [if_neg (by omega)]; rfl, hrepr, ?_⟩
    rwa [List.length_map, List.length_reverse]

theorem pushPrefix_ok (fm : FmtSpec) {text : List Byte} {repr : Nat × Arr 32 Byte}
    (h : ReprHolds text repr) (hroom : text.length ≤ 22) :
    ∃ repr', pushPrefix fm repr = .ok repr' ∧ ReprHolds (fm.prefixText ++ text) repr' := by
  rw [pushPrefix, FmtSpec.prefixText]
  by_cases halternate : fm.alternateForm = true
  · rw [if_pos halternate, if_pos halternate]
    by_cases h16 : fm.base = 16
    · rw [if_pos h16, if_pos h16]
      obtain ⟨repr', hpush, hrepr'⟩ :=
        pushRepr_ok h (by omega) (if fm.uppercase then 88 else 120)
      rw [hpush, ok_bind]
      exact pushRepr_ok hrepr' (by rw [List.length_cons]; omega) 48
    rw [if_neg h16, if_neg h16]
    by_cases h8 : fm.base = 8
    · rw [if_pos h8, if_pos h8]
      exact pushRepr_ok h (by omega) 48
    · rw [if_neg h8, if_neg h8]
      exact ⟨repr, rfl, h⟩
  · rw [if_neg halternate, if_neg halternate]
    exact ⟨repr, rfl, h⟩

section

variable {n : Nat}

/-- A prepared text and its padding. -/
def writePadded (fm : FmtSpec) (text : List Byte) (fb : FmtBufState n) :
    Exec (FmtBufState n) :=
  if fm.leftJustify then writeMany text fb >>= writePadding fm text.length
  else writePadding fm text.length fb >>= writeMany text

theorem writePadded_emits (fm : FmtSpec) (text : List Byte) :
    Emits (n := n) (writePadded fm text) (fm.padded text) := by
  have hmany := writeMany_emits (n := n) text
  have hpadding := writePadding_emits (n := n) fm text.length
  rw [FmtSpec.padded]
  by_cases hleft : fm.leftJustify = true
  · rw [if_pos hleft]
    exact (funext fun fb => if_pos hleft : writePadded fm text = _) ▸ hmany.bind hpadding
  · rw [if_neg hleft]
    exact (funext fun fb => if_neg hleft : writePadded fm text = _) ▸ hpadding.bind hmany

theorem writePadded_total (fm : FmtSpec) (text : List Byte) :
    Total (n := n) (writePadded fm text) := by
  have hmany := writeMany_total (n := n) text
  have hpadding := writePadding_total (n := n) fm text.length
  by_cases hleft : fm.leftJustify = true
  · exact (funext fun fb => if_pos hleft : writePadded fm text = _) ▸ hmany.bind hpadding
  · exact (funext fun fb => if_neg hleft : writePadded fm text = _) ▸ hpadding.bind hmany

/-- The sign in front. -/
def writeSign (fm : FmtSpec) (negative : Bool) (fb : FmtBufState n) : Exec (FmtBufState n) :=
  if fm.prepend || negative then writeOne (if negative then 45 else fm.prependChar) fb
  else pure fb

theorem writeSign_emits (fm : FmtSpec) (negative : Bool) :
    Emits (n := n) (writeSign fm negative) (fm.signText negative) := by
  rw [FmtSpec.signText]
  by_cases hsign : (fm.prepend || negative) = true
  · rw [if_pos hsign]
    exact (funext fun fb => if_pos hsign : writeSign fm negative = _) ▸ writeOne_emits _
  · rw [if_neg hsign]
    exact (funext fun fb => if_neg hsign : writeSign fm negative = _) ▸ emits_nil

theorem writeSign_total (fm : FmtSpec) (negative : Bool) :
    Total (n := n) (writeSign fm negative) := by
  intro fb
  by_cases hsign : (fm.prepend || negative) = true
  · obtain ⟨fb', hrun⟩ := writeOne_total (n := n) (if negative then 45 else fm.prependChar) fb
    exact ⟨fb', (if_pos hsign).trans hrun⟩
  · exact ⟨fb, if_neg hsign⟩

/-- `write_integer` prepares a text, and writes it behind the sign. -/
theorem writeInteger_eq {fm : FmtSpec} (hbase : fm.BaseOk) (value : Word) :
    ∃ negative text, integerText fm value = fm.signText negative ++ fm.padded text ∧
      writeInteger (n := n) fm value = fun fb => writeSign fm negative fb >>= writePadded fm text := by
  obtain ⟨repr, repr', hloop, hzero, hrepr', hlen⟩ := writeIntegerDigits_ok hbase
    (if fm.isSigned && value.slt 0 then -value else value)
  obtain ⟨repr'', hstart, hrepr''⟩ := pushPrefix_ok fm hrepr' hlen
  refine ⟨_, _, rfl, funext fun fb => ?_⟩
  rw [writeInteger, writeSign]
  dsimp only
  rw [ite_seq]
  refine congrArg _ (funext fun fb => ?_)
  rw [hloop, ok_bind, ite_seq, hzero, ok_bind, hstart, ok_bind]
  rw [hrepr''.drop_eq]
  rfl

/-- **`write_integer` writes `integerText`**, in each of the three bases. -/
theorem writeInteger_emits {fm : FmtSpec} (hbase : fm.BaseOk) (value : Word) :
    Emits (n := n) (writeInteger fm value) (integerText fm value) := by
  obtain ⟨negative, text, htext, hwrite⟩ := writeInteger_eq (n := n) hbase value
  rw [htext, hwrite]
  exact (writeSign_emits fm negative).bind (writePadded_emits fm text)

theorem writeInteger_total {fm : FmtSpec} (hbase : fm.BaseOk) (value : Word) :
    Total (n := n) (writeInteger fm value) := by
  obtain ⟨negative, text, -, hwrite⟩ := writeInteger_eq (n := n) hbase value
  rw [hwrite]
  exact (writeSign_total fm negative).bind (writePadded_total fm text)

/-! ## Strings -/

/-- The characters of a string that a `%s` takes. -/
def stringText : (limit : Option Nat) → CBuf → List Byte
  | none, string => cText string
  | some precision, string => cText (string.take precision)

/-- A string that is terminated, or as long as the precision asks. -/
def ReadableString : (limit : Option Nat) → CBuf → Prop
  | none, string => 0 ∈ string
  | some precision, string => 0 ∈ string ∨ precision ≤ string.length

/-- One character after the other. -/
def writeEach : List Byte → FmtBufState n → Exec (FmtBufState n)
  | [], fb => .ok fb
  | c :: text, fb => writeOne c fb >>= writeEach text

theorem writeEach_emits (text : List Byte) : Emits (n := n) (writeEach text) text := by
  induction text with
  | nil => exact emits_nil
  | cons c text ih => exact (writeOne_emits c).bind ih

theorem writeEach_total (text : List Byte) : Total (n := n) (writeEach text) := by
  induction text with
  | nil => exact fun fb => ⟨fb, rfl⟩
  | cons c text ih => exact (writeOne_total c).bind ih

/-- The loop stops at the precision. -/
theorem writeString_limit {limit : Option Nat} {i : Nat} (hlimit : limit.any (· ≤ i) = true)
    (string : CBuf) (fb : FmtBufState n) : writeString limit string i fb = .ok (i, fb) := by
  cases string with
  | nil => exact if_pos hlimit
  | cons c string => exact if_pos hlimit

/-- The loop over the characters, from index `i` on. -/
theorem writeString_eq {limit : Option Nat} {string : CBuf} (i : Nat)
    (hread : ReadableString (limit.map (· - i)) string) (fb : FmtBufState n) :
    writeString limit string i fb = (do
      let fb ← writeEach (stringText (limit.map (· - i)) string) fb
      return (i + (stringText (limit.map (· - i)) string).length, fb)) := by
  induction string generalizing i fb with
  | nil =>
    cases limit with
    | none => cases hread
    | some precision =>
      have hend : precision - i ≤ 0 := hread.resolve_left List.not_mem_nil
      have hlimit : (some precision).any (· ≤ i) = true := decide_eq_true (by omega)
      rw [writeString_limit hlimit]
      simp [stringText, cText, writeEach]
  | cons c string ih =>
    by_cases hlimit : limit.any (· ≤ i) = true
    · obtain ⟨precision, rfl⟩ : ∃ precision, limit = some precision := by
        cases limit with
        | none => cases hlimit
        | some precision => exact ⟨precision, rfl⟩
      have hend : precision - i = 0 := Nat.sub_eq_zero_of_le (of_decide_eq_true hlimit)
      rw [writeString_limit hlimit]
      simp [stringText, cText, writeEach, hend]
    rw [writeString, if_neg hlimit]
    -- the first character is inside the limit
    have htext : stringText (limit.map (· - i)) (c :: string) =
        if c = 0 then [] else c :: stringText (limit.map (· - (i + 1))) string := by
      have hcons : ∀ rest, cText (c :: rest) = if c = 0 then [] else c :: cText rest := by
        intro rest
        by_cases hc : c = 0
        · rw [if_pos hc, hc]
          rfl
        · rw [if_neg hc, cText_cons hc]
      cases limit with
      | none => exact hcons string
      | some precision =>
        have hmore : precision - i = precision - (i + 1) + 1 := by
          have hlt : ¬ precision ≤ i := fun h => hlimit (decide_eq_true h)
          omega
        show cText ((c :: string).take (precision - i)) = _
        rw [hmore, List.take_succ_cons, hcons]
        rfl
    rw [htext]
    by_cases hc : c = 0
    · rw [if_pos hc, if_pos hc]
      rfl
    rw [if_neg hc, if_neg hc]
    have hread' : ReadableString (limit.map (· - (i + 1))) string := by
      cases limit with
      | none => exact (List.mem_cons.mp hread).resolve_left (Ne.symm hc)
      | some precision =>
        rcases hread with hmem | hlen
        · exact .inl ((List.mem_cons.mp hmem).resolve_left (Ne.symm hc))
        · have hrest : precision - i ≤ string.length + 1 := hlen
          exact .inr (show precision - (i + 1) ≤ string.length by omega)
    rw [writeEach, bind_assoc]
    refine congrArg _ (funext fun fb => ?_)
    rw [ih (i + 1) hread', List.length_cons, Nat.add_assoc, Nat.add_comm 1]

/-- The text of a `%s` with its padding. -/
def paddedString (fm : FmtSpec) (limit : Option Nat) (string : CBuf) : List Byte :=
  stringText limit string ++
    List.replicate (fm.minWidth.toNat - (stringText limit string).length) 32

theorem writeString_text {limit : Option Nat} {string : CBuf}
    (hread : ReadableString limit string) (fb : FmtBufState n) :
    writeString limit string 0 fb = (do
      let fb ← writeEach (stringText limit string) fb
      return ((stringText limit string).length, fb)) := by
  have hmap : limit.map (· - 0) = limit := by cases limit <;> rfl
  have hloop := writeString_eq 0 (show ReadableString (limit.map (· - 0)) string by rwa [hmap]) fb
  rwa [hmap, Nat.zero_add] at hloop

end

end KptrOS
