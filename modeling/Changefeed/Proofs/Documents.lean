/-
Documents that were written are read back. What is written is neat: its numbers are whole numbers without leading zeros, and
its strings are escaped (`Neat`). The scanner takes a neat document to its end and no further: a string ends at the first
quote that is not escaped, and a number where something follows it that is no part of a number.

Results:
- `Quoted.decode?_encode`: a string body stands for the text that it was made of, whatever its characters;
- `Machine.reads_write`: the scanner reads a neat document wherever it waits for a value;
- `scan_write`: the text of a neat document is that document;
- `Doc.fields?_object`: the fields of a structure are found under their names.
-/
import Mathlib.Tactic
import Changefeed.Json.Read

namespace Changefeed.Json

open Doc

/-! ## Strings -/

namespace Quoted

theorem hexValue?_hexDigit : ∀ n < 16, hexValue? (hexDigit n) = some n := by decide

/-- the escape of a control character is read as that character -/
theorem foldl_control (read : List Char) {n : ℕ} (hn : n < 0x20) :
    ['\\', 'u', '0', '0', hexDigit (n / 16), hexDigit (n % 16)].foldl Reader.step (.plain read) =
      .plain (Char.ofNat n :: read) := by
  have hhigh := hexValue?_hexDigit (n / 16) (by omega)
  have hlow := hexValue?_hexDigit (n % 16) (by omega)
  have hzero : hexValue? '0' = some 0 := by decide
  have hcode : n / 16 * 16 + n % 16 = n := by omega
  have hplain : Reader.isHigh n = false ∧ Reader.isLow n = false := by
    simp only [Reader.isHigh, Reader.isLow, Bool.and_eq_false_iff, decide_eq_false_iff_not]
    omega
  simp [Reader.step, hzero, hhigh, hlow, hcode, Reader.unit, hplain]

/-- an escaped character is read as itself -/
theorem foldl_escape (read : List Char) (c : Char) :
    (escape c).foldl Reader.step (.plain read) = .plain (c :: read) := by
  unfold escape
  split
  all_goals try rfl
  next hquote hslash _ _ _ _ _ =>
    split
    next hcontrol => rw [foldl_control read hcontrol, Char.ofNat_toNat]
    next hplain =>
      have hno : ¬ (c = '"' ∨ c.toNat < 0x20) := by
        rintro (rfl | hlt)
        · exact hquote rfl
        · exact hplain hlt
      rw [List.foldl_cons, List.foldl_nil, Reader.step, if_neg (fun h => hslash h), if_neg hno]

/-- **A string body stands for the text that it was made of.** -/
theorem decode?_encode (s : String) : decode? (encode s) = some s := by
  have hfold : ∀ (cs read : List Char),
      (cs.flatMap escape).foldl Reader.step (.plain read) = .plain (cs.reverse ++ read) := by
    intro cs
    induction cs with
    | nil => exact fun _ => rfl
    | cons c cs ih =>
      intro read
      rw [List.flatMap_cons, List.foldl_append, foldl_escape, ih]
      simp
  rw [decode?, encode, Utf8.decode?_encode]
  simp [hfold]

end Quoted

/-! ## Numbers -/

namespace Numeral

theorem isDigit_of_mem_writeNat {n : ℕ} {c : Char} (h : c ∈ writeNat n) : c.isDigit = true :=
  Nat.isDigit_of_mem_toDigits (by omega) (by omega) h

theorem digitChar_ne_zero : ∀ n < 10, 0 < n → n.digitChar ≠ '0' := by decide

/-- the digits of a number that is not zero do not begin with a zero -/
theorem writeNat_pos {n : ℕ} (hn : 0 < n) : ∃ c ds, writeNat n = c :: ds ∧ c ≠ '0' := by
  induction n using Nat.strongRecOn with
  | ind n ih =>
    rw [writeNat, Nat.toDigits_eq_if (by omega)]
    split
    next hlt => exact ⟨_, [], rfl, digitChar_ne_zero n hlt hn⟩
    next hge =>
      obtain ⟨c, ds, hds, hc⟩ := ih (n / 10) (by omega) (by omega)
      rw [writeNat] at hds
      exact ⟨c, ds ++ [(n % 10).digitChar], by rw [hds]; rfl, hc⟩

/-- a natural number is read back as one, without a sign -/
theorem signed?_writeNat (n : ℕ) : signed? (writeNat n) = some (false, n) := by
  have hread := natural?_write n
  unfold signed?
  split
  next digits heq =>
    have hminus : ('-' : Char).isDigit = true := isDigit_of_mem_writeNat (n := n) (by rw [heq]; exact List.mem_cons_self)
    exact absurd hminus (by decide)
  next => rw [hread]; rfl

end Numeral

/-! ## Neat documents -/

/-- a document as it is written: its numbers are whole, and its strings are escaped -/
inductive Doc.Neat : Doc → Prop
  | null : Neat .null
  | bool (b : Bool) : Neat (.bool b)
  | number (i : Int) : Neat (.number (Numeral.write i))
  | string (s : String) : Neat (.string (Quoted.encode s))
  | array (items : List Doc) (h : ∀ t ∈ items, Neat t) : Neat (.array items)
  | object (members : List (Bytes × Doc)) (hkeys : ∀ m ∈ members, ∃ s, m.1 = Quoted.encode s)
      (h : ∀ m ∈ members, Neat m.2) : Neat (.object members)

namespace Machine

/-! ## Scanning strings -/

/-- the scanner stays inside a string all through these bytes -/
def Smooth (body : Bytes) : Prop :=
  ∀ stack read, body.foldl step ⟨stack, .string read⟩ = ⟨stack, .string (body.reverse ++ read)⟩

theorem smooth_nil : Smooth [] := fun _ _ => rfl

theorem Smooth.append {a b : Bytes} (ha : Smooth a) (hb : Smooth b) : Smooth (a ++ b) := by
  intro stack read
  rw [List.foldl_append, ha, hb, List.reverse_append, List.append_assoc]

/-- a byte that neither ends a string nor begins an escape -/
theorem smooth_byte {b : UInt8} (hquote : b ≠ quote) (hslash : b ≠ backslash) (hcontrol : ¬ b < 0x20) : Smooth [b] := by
  intro stack read
  simp [step, hquote, hslash, hcontrol]

theorem smooth_bytes {body : Bytes} (h : ∀ b ∈ body, b ≠ quote ∧ b ≠ backslash ∧ ¬ b < 0x20) : Smooth body := by
  induction body with
  | nil => exact smooth_nil
  | cons b body ih =>
    obtain ⟨hquote, hslash, hcontrol⟩ := h b List.mem_cons_self
    exact (smooth_byte hquote hslash hcontrol).append (ih fun b' hb' => h b' (List.mem_cons_of_mem b hb'))

/-- the bytes of a character are the character itself, or far above all that is special in a string -/
theorem mem_encodeNat {n : ℕ} {b : UInt8} (hn : n < 0x110000) (h : b ∈ Utf8.encodeNat n) :
    b.toNat = n ∨ 0x80 ≤ b.toNat := by
  unfold Utf8.encodeNat at h
  split at h
  next hlt =>
    rw [List.mem_singleton.1 h, UInt8.toNat_ofNat_of_lt' (show n < 256 by omega)]
    exact Or.inl rfl
  next hge =>
    -- all bytes are a small number more than a first or a following byte
    have hbyte : ∃ x, b = .ofNat (0x80 + x) ∧ x < 0x80 := by
      split at h
      · simp only [List.mem_cons, List.not_mem_nil, or_false] at h
        rcases h with rfl | rfl
        · exact ⟨0x40 + n / 64, by rw [← Nat.add_assoc], by omega⟩
        · exact ⟨_, rfl, by omega⟩
      · split at h
        · simp only [List.mem_cons, List.not_mem_nil, or_false] at h
          rcases h with rfl | rfl | rfl
          · exact ⟨0x60 + n / 4096, by rw [← Nat.add_assoc], by omega⟩
          · exact ⟨_, rfl, by omega⟩
          · exact ⟨_, rfl, by omega⟩
        · simp only [List.mem_cons, List.not_mem_nil, or_false] at h
          rcases h with rfl | rfl | rfl | rfl
          · exact ⟨0x70 + n / 262144, by rw [← Nat.add_assoc], by omega⟩
          · exact ⟨_, rfl, by omega⟩
          · exact ⟨_, rfl, by omega⟩
          · exact ⟨_, rfl, by omega⟩
    obtain ⟨x, rfl, hx⟩ := hbyte
    rw [UInt8.toNat_ofNat_of_lt' (show 0x80 + x < 256 by omega)]
    exact Or.inr (by omega)

theorem encodeChar_hexDigit {n : ℕ} (hn : n < 16) :
    ∃ b, Utf8.encodeChar (Quoted.hexDigit n) = [b] ∧ isHexDigit b = true := by
  have hall : ∀ n < 16, Utf8.encodeChar (Quoted.hexDigit n) = [.ofNat (Quoted.hexDigit n).toNat] ∧
      isHexDigit (.ofNat (Quoted.hexDigit n).toNat) = true := by decide
  exact ⟨_, hall n hn⟩

theorem smooth_escape (c : Char) : Smooth (Utf8.encode (Quoted.escape c)) := by
  unfold Quoted.escape
  split
  all_goals try exact fun _ _ => rfl
  next hquote hslash _ _ _ _ _ =>
    split
    next hcontrol =>
      obtain ⟨b, hb, hhigh⟩ := encodeChar_hexDigit (show c.toNat / 16 < 16 by omega)
      obtain ⟨b', hb', hlow⟩ := encodeChar_hexDigit (show c.toNat % 16 < 16 by omega)
      have hbytes : Utf8.encode ['\\', 'u', '0', '0', Quoted.hexDigit (c.toNat / 16), Quoted.hexDigit (c.toNat % 16)] =
          [0x5c, 0x75, 0x30, 0x30, b, b'] := by
        simp only [Utf8.encode, List.flatMap_cons, List.flatMap_nil, hb, hb']
        rfl
      intro stack read
      have hzeros : [0x5c, 0x75, 0x30, 0x30].foldl step ⟨stack, .string read⟩ =
          ⟨stack, .hex 2 (0x30 :: 0x30 :: 0x75 :: 0x5c :: read)⟩ := rfl
      rw [hbytes, show [0x5c, 0x75, 0x30, 0x30, b, b'] = [0x5c, 0x75, 0x30, 0x30] ++ [b, b'] from rfl, List.foldl_append,
        hzeros]
      simp [step, hhigh, hlow]
    next hplain =>
      apply smooth_bytes
      intro b hb
      have hb : b ∈ Utf8.encodeNat c.toNat := by simpa [Utf8.encode, Utf8.encodeChar] using hb
      have hchar : ∀ d : Char, c ≠ d → c.toNat ≠ d.toNat := fun d hne heq => hne (Char.toNat_inj.1 heq)
      have hquote := hchar '"' hquote
      have hslash := hchar '\\' hslash
      have hspecial : ('"' : Char).toNat = 0x22 ∧ ('\\' : Char).toNat = 0x5c := by decide
      rw [← UInt8.toNat_inj.ne, ← UInt8.toNat_inj.ne, UInt8.lt_iff_toNat_lt]
      have hvalues : quote.toNat = 0x22 ∧ backslash.toNat = 0x5c ∧ (0x20 : UInt8).toNat = 0x20 := by decide
      rcases mem_encodeNat (Utf8.toNat_lt c) hb with heq | hge <;> omega

/-- the body of a string is read to its end -/
theorem smooth_encode (s : String) : Smooth (Quoted.encode s) := by
  rw [Quoted.encode]
  induction s.toList with
  | nil => exact smooth_nil
  | cons c cs ih =>
    rw [List.flatMap_cons, Utf8.encode, List.flatMap_append]
    exact (smooth_escape c).append ih

/-! ## Scanning numbers -/

/-- a digit is one byte -/
theorem encodeChar_digit {c : Char} (hc : c.isDigit = true) :
    ∃ b, Utf8.encodeChar c = [b] ∧ isDigit b = true ∧ charOf b = c ∧ (c ≠ '0' → b ≠ 0x30) := by
  have hrange : 48 ≤ c.toNat ∧ c.toNat ≤ 57 := Char.isDigit_iff_toNat.1 hc
  have hbyte : (UInt8.ofNat c.toNat).toNat = c.toNat := UInt8.toNat_ofNat_of_lt' (show c.toNat < 256 by omega)
  refine ⟨.ofNat c.toNat, ?_, ?_, ?_, ?_⟩
  · rw [Utf8.encodeChar, Utf8.encodeNat, if_pos (by omega)]
  · have hbounds : (0x30 : UInt8).toNat = 48 ∧ (0x39 : UInt8).toNat = 57 := by decide
    simp only [isDigit, Bool.and_eq_true, decide_eq_true_eq, UInt8.le_iff_toNat_le]
    omega
  · rw [charOf, hbyte, Char.ofNat_toNat]
  · intro hne heq
    refine hne (Char.toNat_inj.1 ?_)
    rw [← hbyte, heq]
    rfl

theorem scan_digits {ds : List Char} (hds : ∀ c ∈ ds, c.isDigit = true) (stack : List Frame) (read : List Char) :
    (Utf8.encode ds).foldl step ⟨stack, .number .digits read⟩ = ⟨stack, .number .digits (ds.reverse ++ read)⟩ := by
  induction ds generalizing read with
  | nil => rfl
  | cons c ds ih =>
    obtain ⟨b, hb, hdigit, hchar, -⟩ := encodeChar_digit (hds c List.mem_cons_self)
    rw [Utf8.encode, List.flatMap_cons, hb, ← Utf8.encode]
    have hstep : step ⟨stack, .number .digits read⟩ b = ⟨stack, .number .digits (c :: read)⟩ := by
      simp [step, NumberPart.step?, hdigit, hchar]
    rw [List.singleton_append, List.foldl_cons, hstep, ih fun c' hc' => hds c' (List.mem_cons_of_mem c hc')]
    simp

/-- a digit that is not zero begins a number -/
theorem step_digit {mode : Mode} (hmode : mode = .value ∨ mode = .firstItem) {b : UInt8} (hdigit : isDigit b = true)
    (hzero : b ≠ 0x30) (stack : List Frame) : step ⟨stack, mode⟩ b = ⟨stack, .number .digits [charOf b]⟩ := by
  have hvalues : b = 0x31 ∨ b = 0x32 ∨ b = 0x33 ∨ b = 0x34 ∨ b = 0x35 ∨ b = 0x36 ∨ b = 0x37 ∨ b = 0x38 ∨ b = 0x39 := by
    simp only [isDigit, Bool.and_eq_true, decide_eq_true_eq] at hdigit
    simp only [← UInt8.toNat_inj, ne_eq, UInt8.le_iff_toNat_le, UInt8.reduceToNat] at hdigit hzero ⊢
    omega
  rcases hvalues with rfl | rfl | rfl | rfl | rfl | rfl | rfl | rfl | rfl <;> rcases hmode with rfl | rfl <;> rfl

/-- the digits of a number that is not zero, where a number begins or behind its sign -/
theorem scan_positive {n : ℕ} (hn : 0 < n) {m : Machine} {stack : List Frame} {read : List Char}
    (hm : ∀ b, isDigit b = true → b ≠ 0x30 → step m b = ⟨stack, .number .digits (charOf b :: read)⟩) :
    (Utf8.encode (Numeral.writeNat n)).foldl step m =
      ⟨stack, .number .digits ((Numeral.writeNat n).reverse ++ read)⟩ := by
  obtain ⟨c, ds, hds, hc⟩ := Numeral.writeNat_pos hn
  have hdigits : ∀ d ∈ c :: ds, d.isDigit = true := fun d hd => Numeral.isDigit_of_mem_writeNat (n := n) (hds ▸ hd)
  obtain ⟨b, hb, hdigit, hchar, hzero⟩ := encodeChar_digit (hdigits c List.mem_cons_self)
  rw [hds, Utf8.encode, List.flatMap_cons, hb, ← Utf8.encode, List.singleton_append, List.foldl_cons,
    hm b hdigit (hzero hc), hchar, scan_digits fun d hd => hdigits d (List.mem_cons_of_mem c hd)]
  simp

/-! ## Scanning documents -/

/-- a value may stand here: not where an object expects a key -/
def Awaits : List Frame → Prop
  | .object _ none :: _ => False
  | _ => True

/-- the machine has read a value; a number may still go on -/
inductive Behind (t : Doc) (stack : List Frame) : Machine → Prop
  | complete : Behind t stack (complete t stack)
  | number (part : NumberPart) (lexeme : List Char) (hpart : part = .zero ∨ part = .digits)
      (ht : t = .number lexeme.reverse) : Behind t stack ⟨stack, .number part lexeme⟩

/-- what goes on behind a value ends it -/
theorem Behind.step {t : Doc} {stack : List Frame} {m : Machine} (h : Behind t stack m) {b : UInt8}
    (hb : b = comma ∨ b = closeBracket ∨ b = closeBrace) :
    Machine.step m b = stepBehind (Machine.complete t stack) b := by
  cases h with
  | complete =>
    unfold Machine.complete
    split <;> rfl
  | number part lexeme hpart ht =>
    subst ht
    rcases hpart with rfl | rfl <;> rcases hb with rfl | rfl | rfl <;> rfl

theorem Behind.finish {t : Doc} {m : Machine} (h : Behind t [] m) : m.finish = .document t := by
  cases h with
  | complete => rfl
  | number part lexeme hpart ht =>
    subst ht
    rcases hpart with rfl | rfl <;> rfl

/-- a whole number is read to its last digit -/
theorem reads_int (i : Int) {mode : Mode} (hmode : mode = .value ∨ mode = .firstItem) (stack : List Frame) :
    Behind (.number (Numeral.write i)) stack ((Utf8.encode (Numeral.write i)).foldl step ⟨stack, mode⟩) := by
  cases i with
  | ofNat n =>
    rw [Numeral.write]
    rcases Nat.eq_zero_or_pos n with rfl | hn
    · have hread : (Utf8.encode (Numeral.writeNat 0)).foldl step ⟨stack, mode⟩ = ⟨stack, .number .zero ['0']⟩ := by
        rcases hmode with rfl | rfl <;> rfl
      rw [hread]
      exact .number .zero ['0'] (Or.inl rfl) rfl
    · rw [scan_positive hn fun b hdigit hzero => step_digit hmode hdigit hzero stack]
      exact .number .digits _ (Or.inr rfl) (by simp)
  | negSucc n =>
    have hminus : step ⟨stack, mode⟩ 0x2d = ⟨stack, .number .minus ['-']⟩ := by rcases hmode with rfl | rfl <;> rfl
    have hbytes : Utf8.encode (Numeral.write (.negSucc n)) = 0x2d :: Utf8.encode (Numeral.writeNat (n + 1)) := rfl
    have hfirst : ∀ b, isDigit b = true → b ≠ 0x30 →
        step ⟨stack, .number .minus ['-']⟩ b = ⟨stack, .number .digits (charOf b :: ['-'])⟩ := by
      intro b hdigit hzero
      simp [step, NumberPart.step?, hdigit, hzero]
    rw [hbytes, List.foldl_cons, hminus, scan_positive (Nat.succ_pos n) hfirst]
    exact .number .digits _ (Or.inr rfl) (by simp [Numeral.write])

/-- the body of a string, with the quote at its end -/
theorem foldl_body (s : String) (stack : List Frame) :
    (Quoted.encode s ++ [quote]).foldl step ⟨stack, .string []⟩ = completeString (Quoted.encode s) stack := by
  rw [List.foldl_append, smooth_encode]
  simp [step]

theorem reads_string (s : String) {mode : Mode} (hmode : mode = .value ∨ mode = .firstItem) {stack : List Frame}
    (hstack : Awaits stack) :
    (quoted (Quoted.encode s)).foldl step ⟨stack, mode⟩ = complete (.string (Quoted.encode s)) stack := by
  have hbegin : step ⟨stack, mode⟩ quote = ⟨stack, .string []⟩ := by rcases hmode with rfl | rfl <;> rfl
  rw [quoted, List.cons_append, List.foldl_cons, hbegin, foldl_body]
  unfold completeString
  split
  · exact absurd hstack id
  · rfl

/-- the key of a member, with the colon behind it -/
theorem reads_key (s : String) {mode : Mode} (hmode : mode = .key ∨ mode = .firstKey) (members : List (Bytes × Doc))
    (stack : List Frame) :
    (quoted (Quoted.encode s) ++ [colon]).foldl step ⟨.object members none :: stack, mode⟩ =
      ⟨.object members (some (Quoted.encode s)) :: stack, .value⟩ := by
  have hbegin : step ⟨.object members none :: stack, mode⟩ quote = ⟨.object members none :: stack, .string []⟩ := by
    rcases hmode with rfl | rfl <;> rfl
  have hsplit : quoted (Quoted.encode s) ++ [colon] = quote :: ((Quoted.encode s ++ [quote]) ++ [colon]) := by
    simp [quoted]
  rw [hsplit, List.foldl_cons, hbegin, List.foldl_append, foldl_body]
  rfl

/-- what stands behind the first item of an array -/
theorem reads_items {ts : List Doc}
    (h : ∀ t ∈ ts, ∀ stack, Awaits stack → Behind t stack (t.write.foldl step ⟨stack, .value⟩))
    {t : Doc} {items : List Doc} {stack : List Frame} {m : Machine} (hm : Behind t (.array items :: stack) m) :
    Behind (.array (items.reverse ++ t :: ts)) stack ((writeItems ts).foldl step m) := by
  induction ts generalizing t items m with
  | nil =>
    have hstep := hm.step (b := closeBracket) (by simp)
    rw [writeItems, List.foldl_cons, List.foldl_nil, hstep]
    have hclose : stepBehind (complete t (.array items :: stack)) closeBracket =
        complete (.array (items.reverse ++ [t])) stack := by
      rw [← List.reverse_cons]
      rfl
    rw [hclose]
    exact .complete
  | cons t' ts ih =>
    have hstep := hm.step (b := comma) (by simp)
    have hnext : stepBehind (complete t (.array items :: stack)) comma = ⟨.array (t :: items) :: stack, .value⟩ := rfl
    rw [writeItems, List.foldl_cons, hstep, hnext, List.foldl_append]
    have hread := h t' List.mem_cons_self (.array (t :: items) :: stack) trivial
    have hrest := ih (fun t hts => h t (List.mem_cons_of_mem t' hts)) hread
    simpa using hrest

theorem reads_members {ms : List (Bytes × Doc)} (hkeys : ∀ m ∈ ms, ∃ s, m.1 = Quoted.encode s)
    (h : ∀ m ∈ ms, ∀ stack, Awaits stack → Behind m.2 stack (m.2.write.foldl step ⟨stack, .value⟩))
    {k : Bytes} {t : Doc} {members : List (Bytes × Doc)} {stack : List Frame} {m : Machine}
    (hm : Behind t (.object members (some k) :: stack) m) :
    Behind (.object (members.reverse ++ (k, t) :: ms)) stack ((writeMembers ms).foldl step m) := by
  induction ms generalizing k t members m with
  | nil =>
    have hstep := hm.step (b := closeBrace) (by simp)
    rw [writeMembers, List.foldl_cons, List.foldl_nil, hstep]
    have hclose : stepBehind (complete t (.object members (some k) :: stack)) closeBrace =
        complete (.object (members.reverse ++ [(k, t)])) stack := by
      rw [← List.reverse_cons]
      rfl
    rw [hclose]
    exact .complete
  | cons e ms ih =>
    obtain ⟨k', t'⟩ := e
    obtain ⟨s, rfl⟩ := hkeys (k', t') List.mem_cons_self
    have hstep := hm.step (b := comma) (by simp)
    have hnext : stepBehind (complete t (.object members (some k) :: stack)) comma =
        ⟨.object ((k, t) :: members) none :: stack, .key⟩ := rfl
    have hkey := reads_key s (Or.inl rfl) ((k, t) :: members) stack
    have hsplit : quoted (Quoted.encode s) ++ colon :: (t'.write ++ writeMembers ms) =
        (quoted (Quoted.encode s) ++ [colon]) ++ (t'.write ++ writeMembers ms) := by simp
    rw [writeMembers, List.foldl_cons, hstep, hnext, hsplit, List.foldl_append, hkey, List.foldl_append]
    have hread := h _ List.mem_cons_self (.object ((k, t) :: members) (some (Quoted.encode s)) :: stack) trivial
    have hrest := ih (fun m hms => hkeys m (List.mem_cons_of_mem _ hms)) (fun m hms => h m (List.mem_cons_of_mem _ hms))
      hread
    simpa using hrest

/-- **The scanner reads a neat document wherever it waits for a value.** -/
theorem reads_write {t : Doc} (h : t.Neat) {mode : Mode} (hmode : mode = .value ∨ mode = .firstItem) (stack : List Frame)
    (hstack : Awaits stack) : Behind t stack (t.write.foldl step ⟨stack, mode⟩) := by
  induction h generalizing mode stack with
  | null =>
    have hread : Doc.null.write.foldl step ⟨stack, mode⟩ = complete .null stack := by rcases hmode with rfl | rfl <;> rfl
    rw [hread]
    exact .complete
  | bool b =>
    have hread : (Doc.bool b).write.foldl step ⟨stack, mode⟩ = complete (.bool b) stack := by
      cases b <;> rcases hmode with rfl | rfl <;> rfl
    rw [hread]
    exact .complete
  | number i => exact reads_int i hmode stack
  | string s =>
    rw [Doc.write, reads_string s hmode hstack]
    exact .complete
  | array items h ih =>
    have hopen : step ⟨stack, mode⟩ openBracket = ⟨.array [] :: stack, .firstItem⟩ := by
      rcases hmode with rfl | rfl <;> rfl
    cases items with
    | nil =>
      rw [Doc.write, List.foldl_cons, hopen]
      exact .complete
    | cons t ts =>
      rw [Doc.write, List.foldl_cons, hopen, List.foldl_append]
      have hfirst := ih t List.mem_cons_self (Or.inr rfl) (.array [] :: stack) trivial
      exact reads_items (fun t' ht' => ih t' (List.mem_cons_of_mem t ht') (Or.inl rfl)) hfirst
  | object members hkeys h ih =>
    have hopen : step ⟨stack, mode⟩ openBrace = ⟨.object [] none :: stack, .firstKey⟩ := by
      rcases hmode with rfl | rfl <;> rfl
    cases members with
    | nil =>
      rw [Doc.write, List.foldl_cons, hopen]
      exact .complete
    | cons e ms =>
      obtain ⟨k, t⟩ := e
      obtain ⟨s, rfl⟩ := hkeys (k, t) List.mem_cons_self
      have hkey := reads_key s (Or.inr rfl) [] stack
      have hsplit : quoted (Quoted.encode s) ++ colon :: (t.write ++ writeMembers ms) =
          (quoted (Quoted.encode s) ++ [colon]) ++ (t.write ++ writeMembers ms) := by simp
      rw [Doc.write, List.foldl_cons, hopen, hsplit, List.foldl_append, hkey, List.foldl_append]
      have hfirst := ih _ List.mem_cons_self (Or.inl rfl) (.object [] (some (Quoted.encode s)) :: stack) trivial
      exact reads_members (fun m hms => hkeys m (List.mem_cons_of_mem _ hms))
        (fun m hms => ih m (List.mem_cons_of_mem _ hms) (Or.inl rfl)) hfirst

end Machine

/-- **The text of a neat document is that document.** -/
theorem scan_write {t : Doc} (h : t.Neat) : scan t.write = .document t :=
  (Machine.reads_write h (Or.inl rfl) [] trivial).finish

/-! ## Structures -/

/-- a function that may fail succeeds on a list exactly if it does on each element -/
theorem mapM_eq_some_iff {α β : Type} {f : α → Option β} {l : List α} {r : List β} :
    l.mapM f = some r ↔ List.Forall₂ (fun a b => f a = some b) l r := by
  induction l generalizing r with
  | nil => cases r <;> simp
  | cons a l ih =>
    rw [List.mapM_cons, List.forall₂_cons_left_iff]
    cases ha : f a with
    | none => simp
    | some b =>
      simp only [Option.bind_eq_bind, Option.bind_some, Option.some.injEq, Option.bind_eq_some_iff, Option.pure_def, ih]
      constructor
      · rintro ⟨rest, hrest, rfl⟩
        exact ⟨b, rest, rfl, hrest, rfl⟩
      · rintro ⟨_, rest, rfl, hrest, rfl⟩
        exact ⟨rest, hrest, rfl⟩

theorem mapM_some {α β : Type} {f : α → Option β} {g : α → β} {l : List α} (h : ∀ a ∈ l, f a = some (g a)) :
    l.mapM f = some (l.map g) := by
  rw [mapM_eq_some_iff, List.forall₂_map_right_iff, List.forall₂_same]
  exact h

/-- an object with members of these names -/
def members (fields : List (String × Doc)) : List (Bytes × Doc) := fields.map fun p => (Quoted.encode p.1, p.2)

theorem neat_members {fields : List (String × Doc)} (h : ∀ p ∈ fields, p.2.Neat) : (Doc.object (members fields)).Neat := by
  refine .object _ ?_ ?_
  · intro m hm
    obtain ⟨p, -, rfl⟩ := List.mem_map.1 hm
    exact ⟨p.1, rfl⟩
  · intro m hm
    obtain ⟨p, hp, rfl⟩ := List.mem_map.1 hm
    exact h p hp

theorem filter_name {α : Type} {fields : List (String × α)} (h : (fields.map Prod.fst).Nodup) {p : String × α}
    (hp : p ∈ fields) : (fields.filter fun m => m.1 = p.1) = [p] := by
  induction fields with
  | nil => cases hp
  | cons q fields ih =>
    obtain ⟨hq, hnodup⟩ := List.nodup_cons.1 h
    rcases List.mem_cons.1 hp with rfl | hp
    · have hrest : (fields.filter fun m => m.1 = p.1) = [] := by
        refine List.filter_eq_nil_iff.2 fun m hm heq => hq ?_
        exact List.mem_map.2 ⟨m, hm, of_decide_eq_true heq⟩
      rw [List.filter_cons_of_pos (by simp), hrest]
    · have hne : q.1 ≠ p.1 := fun heq => hq (heq ▸ List.mem_map_of_mem hp)
      rw [List.filter_cons_of_neg (by simpa using hne), ih hnodup hp]

/-- **The fields of a structure are found under their names.** -/
theorem Doc.fields?_object {fields : List (String × Doc)} (h : (fields.map Prod.fst).Nodup) (short : Bool) :
    (Doc.object (members fields)).fields? (fields.map Prod.fst) short = some (fields.map fun p => some p.2) := by
  have hnamed : (members fields).mapM (fun m => do return (← Quoted.decode? m.1, m.2)) = some fields := by
    rw [members, List.mapM_map, mapM_some (g := id)]
    · rw [List.map_id]
    · intro p hp
      simp [Quoted.decode?_encode]
  rw [Doc.fields?, hnamed, Option.bind_eq_bind, Option.bind_some, List.mapM_map, mapM_some (g := fun p => some p.2)]
  intro p hp
  simp only [Function.comp, filter_name h hp]

end Changefeed.Json
