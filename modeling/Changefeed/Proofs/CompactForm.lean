/-
The compact form is read to its end and no further. It names no types and puts no marks between values, so that a reader has
to tell from the bytes themselves where a value ends: a number says so by its first byte, what has a length begins with it,
and the parts of a whole come in the order in which they are read. With each type the bytes behind a value are carried along
unread; so the parts of a whole can be read one after the other.

A length is a number of 64 bits. No memory holds more, but lists have no such bound, so it is asked for (`Value.Fits`).

Results:
- `Varint.read?_write`: a number is read back in every width that it fits;
- `Utf8.decodeChar?_encodeChar`: a character tells its own length;
- `streams_many`: values that are read to their end can be read one after the other;
- `exact_option`, `exact_list`, `exact_pair`, `exact_directory`, `exact_of_parts`: parts that are read to their end make
  wholes that are;
- `compact_delimited`: every value of the types on the wire is read from the front of any bytes that begin with its compact
  form, which therefore begins no other's.
-/
import Changefeed.Proofs.TextForm

namespace Changefeed

/-! ## Numbers -/

/-- what exceeds one width and fits another takes more bytes in the other -/
theorem Width.bytes_lt {v w : Width} {n : ℕ} (h : v.count ≤ n) (h' : n < w.count) : v.bytes < w.bytes := by
  by_contra hle
  have hbits : w.bits ≤ v.bits := by unfold bits; omega
  have hcount : w.count ≤ v.count := Nat.pow_le_pow_right (by omega) hbits
  omega

theorem Width.count_eq_half (w : Width) : w.count = 2 * w.half := by cases w <;> rfl

namespace Varint

/-- the number behind a marker -/
theorem read?_marker {w : Width} {marker : UInt8} {k n : ℕ} (hmarker : ¬ marker < 251) (hk : following? marker = some k)
    (hw : k ≤ w.bytes) (hn : n < Nat.pow 256 k) (rest : Bytes) : read? w (marker :: little k n ++ rest) = some (n, rest) := by
  simp only [List.cons_append, read?, if_neg hmarker, hk, if_pos hw, readLittle?_little hn]

/-- **A number is read back in every width that it fits.** -/
theorem read?_write {w : Width} (hw : w ≠ .w8) {n : ℕ} (h : n < w.count) (rest : Bytes) :
    read? w (write n ++ rest) = some (n, rest) := by
  unfold write
  split
  next hsmall =>
    have hbyte : (UInt8.ofNat n).toNat = n := UInt8.toNat_ofNat_of_lt' (show n < 256 by omega)
    have hlt : UInt8.ofNat n < 251 := UInt8.lt_iff_toNat_lt.2 (by rw [hbyte]; exact hsmall)
    simp only [List.cons_append, List.nil_append, read?, if_pos hlt, hbyte]
  next =>
    split
    next h16 => exact read?_marker (by decide) rfl (by cases w <;> first | exact absurd rfl hw | decide) h16 rest
    next h16 =>
      have hbytes := Width.bytes_lt (Nat.le_of_not_lt h16) h
      split
      next h32 => exact read?_marker (by decide) rfl (by cases w <;> revert hbytes <;> decide) h32 rest
      next h32 =>
        have hbytes := Width.bytes_lt (Nat.le_of_not_lt h32) h
        split
        next h64 => exact read?_marker (by decide) rfl (by cases w <;> revert hbytes <;> decide) h64 rest
        next h64 =>
          have hbytes := Width.bytes_lt (Nat.le_of_not_lt h64) h
          obtain rfl : w = .w128 := by cases w <;> revert hbytes <;> decide
          exact read?_marker (by decide) rfl (by decide) h rest

/-- the number of one byte -/
theorem readLittle?_byte {n : ℕ} (h : n < 256) (rest : Bytes) : readLittle? 1 (.ofNat n :: rest) = some (n, rest) := by
  have hread := readLittle?_little (k := 1) (show n < Nat.pow 256 1 from h) rest
  rwa [show little 1 n = [.ofNat n] by rw [little, little, Nat.mod_eq_of_lt h]] at hread

/-- folding takes the numbers of a width into the width -/
theorem fold_lt {w : Width} (i : Signed w) : fold i.val < w.count := by
  have hle := i.le
  have hlt := i.lt
  rw [Width.count_eq_half]
  unfold fold
  split <;> omega

end Varint

/-! ## Characters -/

namespace Utf8

/-- the first byte of a character tells how many there are -/
theorem width_encodeNat {n : ℕ} (hn : n < 0x110000) :
    ∃ first following, encodeNat n = first :: following ∧ width first = following.length + 1 := by
  have hwidth : ∀ {x : ℕ}, x < 256 → width (.ofNat x) =
      if x < 0x80 then 1 else if x < 0xc2 then 0 else if x < 0xe0 then 2 else if x < 0xf0 then 3
      else if x < 0xf5 then 4 else 0 := by
    intro x hx
    simp only [width, UInt8.toNat_ofNat_of_lt' hx]
  unfold encodeNat
  split
  · refine ⟨_, _, rfl, ?_⟩
    rw [hwidth (by omega), if_pos (by omega)]
    rfl
  · split
    · refine ⟨_, _, rfl, ?_⟩
      rw [hwidth (by omega), if_neg (by omega), if_neg (by omega), if_pos (by omega)]
      rfl
    · split
      · refine ⟨_, _, rfl, ?_⟩
        rw [hwidth (by omega), if_neg (by omega), if_neg (by omega), if_neg (by omega), if_pos (by omega)]
        rfl
      · refine ⟨_, _, rfl, ?_⟩
        rw [hwidth (by omega), if_neg (by omega), if_neg (by omega), if_neg (by omega), if_neg (by omega),
          if_pos (by omega)]
        rfl

/-- a character is read from the front of the bytes that begin with it -/
theorem decodeChar?_encodeChar (c : Char) (rest : Bytes) : decodeChar? (encodeChar c ++ rest) = some (c, rest) := by
  obtain ⟨first, following, hbytes, hwidth⟩ := width_encodeNat (toNat_lt c)
  have hone : decode? (first :: following) = some [c] := by
    have hread := decode?_encode [c]
    rwa [encode, List.flatMap_cons, List.flatMap_nil, List.append_nil, encodeChar, hbytes] at hread
  have hlength : width first = (first :: following).length := hwidth
  rw [encodeChar, hbytes]
  simp only [List.cons_append, decodeChar?]
  rw [hlength, ← List.cons_append, List.take_left, List.drop_left, hone]

end Utf8

namespace Wire

/-! ## Lengths -/

namespace Value

mutual

/-- the lengths that are written before a value and its parts -/
def lengths : Value → List ℕ
  | text s => [(utf8 s).length]
  | bytes b => [b.length]
  | present v => v.lengths
  | seq items => items.length :: itemLengths items
  | tuple items => itemLengths items
  | map entries => entries.length :: entryLengths entries
  | fields fs => fieldLengths fs
  | _ => []

def itemLengths : List Value → List ℕ
  | [] => []
  | v :: vs => v.lengths ++ itemLengths vs

def entryLengths : List (Value × Value) → List ℕ
  | [] => []
  | (k, v) :: es => k.lengths ++ v.lengths ++ entryLengths es

def fieldLengths : List (String × Value) → List ℕ
  | [] => []
  | (_, v) :: fs => v.lengths ++ fieldLengths fs

end

/-- every length is a number of 64 bits -/
def Fits (v : Value) : Prop := ∀ n ∈ v.lengths, n < Width.w64.count

instance (v : Value) : Decidable v.Fits := inferInstanceAs (Decidable (∀ n ∈ v.lengths, n < Width.w64.count))

end Value

section Written

variable {α : Type} [ToValue α]

/-- what is in a list has no more lengths than the list -/
theorem fits_of_mem {as : List α} (h : (toValue as).Fits) {a : α} (ha : a ∈ as) : (toValue a).Fits := by
  have hall : ∀ as : List α, a ∈ as → ∀ n ∈ (toValue a).lengths, n ∈ Value.itemLengths (as.map toValue) := by
    intro as ha n hn
    induction as with
    | nil => cases ha
    | cons b as ih =>
      rw [List.map_cons, Value.itemLengths]
      rcases List.mem_cons.1 ha with rfl | ha
      · exact List.mem_append_left _ hn
      · exact List.mem_append_right _ (ih ha)
  exact fun n hn => h n (List.mem_cons_of_mem _ (hall as ha n hn))

/-- what is in a directory has no more lengths than the directory -/
theorem fits_of_entry {d : Directory α} (h : (toValue d).Fits) {e : String × α} (he : e ∈ d.entries) :
    (toValue e.1).Fits ∧ (toValue e.2).Fits := by
  have hall : ∀ entries : List (String × α), e ∈ entries → ∀ n, n ∈ (toValue e.1).lengths ∨ n ∈ (toValue e.2).lengths →
      n ∈ Value.entryLengths (entries.map fun e => (.text e.1, toValue e.2)) := by
    intro entries he n hn
    induction entries with
    | nil => cases he
    | cons e' entries ih =>
      rw [List.map_cons, Value.entryLengths, List.mem_append, List.mem_append]
      rcases List.mem_cons.1 he with rfl | he
      · exact Or.inl hn
      · exact Or.inr (ih he)
  exact ⟨fun n hn => h n (List.mem_cons_of_mem _ (hall _ he n (Or.inl hn))),
    fun n hn => h n (List.mem_cons_of_mem _ (hall _ he n (Or.inr hn)))⟩

end Written

open Value

theorem readLength?_lengthBytes {n : ℕ} (h : n < Width.w64.count) (rest : Bytes) :
    readLength? (lengthBytes n ++ rest) = some (n, rest) :=
  Varint.read?_write (by decide) h rest

/-! ## Wholes and their parts -/

/-- the entries of a map are written as pairs are -/
theorem entriesCompact_eq {α : Type} [ToValue α] (entries : List (String × α)) :
    Value.entriesCompact (entries.map fun e => (.text e.1, toValue e.2)) = Value.allCompact (entries.map toValue) := by
  induction entries with
  | nil => rfl
  | cons e entries ih =>
    simp only [List.map_cons, entriesCompact_cons, allCompact_cons, allCompact_nil, ih, toValue, toCompact_tuple]
    cases (text e.1).toCompact <;> cases (toValue e.2).toCompact <;> simp [bind, Except.bind, pure, Except.pure]

/-- the fields of a structure are written as the items of a tuple are -/
theorem fieldsCompact_eq (fs : List (String × Value)) : Value.fieldsCompact fs = Value.allCompact (fs.map Prod.snd) := by
  induction fs with
  | nil => rfl
  | cons f fs ih => rw [fieldsCompact_cons, List.map_cons, allCompact_cons, ih]

/-- a tuple at the end of a tuple leaves no trace -/
theorem allCompact_tuple (v : Value) (vs : List Value) : Value.allCompact [v, .tuple vs] = Value.allCompact (v :: vs) := by
  simp only [allCompact_cons, allCompact_nil, toCompact_tuple]
  cases Value.allCompact vs <;> simp [bind, Except.bind, pure, Except.pure]

/-- a pair is read as its first part and then its second -/
theorem ofCompact?_pair {α β : Type} [OfCompact α] [OfCompact β] (bytes : Bytes) :
    (ofCompact? bytes : Option ((α × β) × Bytes)) =
      (ofCompact? bytes).bind fun p : α × Bytes => (ofCompact? p.2).bind fun q : β × Bytes => some ((p.1, q.1), q.2) :=
  rfl

/-! ## Type by type -/

/-- the value has a compact form, and is read from the front of any bytes that begin with it, up to its end -/
def Streams {α : Type} [ToValue α] [OfCompact α] (a : α) : Prop :=
  ∃ d, (toValue a).toCompact = .ok d ∧ ∀ rest, ofCompact? (d ++ rest) = some (a, rest)

/-- so is every value of the type -/
def Exact (α : Type) [ToValue α] [OfCompact α] : Prop := ∀ a : α, (toValue a).Fits → Streams a

theorem exact_bool : Exact Bool := by
  intro b _
  cases b
  · exact ⟨[0], rfl, fun _ => rfl⟩
  · exact ⟨[1], rfl, fun _ => rfl⟩

theorem exact_unit : Exact Unit := fun _ _ => ⟨[], rfl, fun _ => rfl⟩

theorem exact_char : Exact Char := fun c _ => ⟨Utf8.encodeChar c, rfl, Utf8.decodeChar?_encodeChar c⟩

theorem exact_unsigned (w : Width) : Exact (Unsigned w) := by
  intro n _
  by_cases hw : w = .w8
  · subst hw
    refine ⟨[.ofNat n.val], rfl, fun rest => ?_⟩
    simp only [ofCompact?, if_true, List.cons_append, List.nil_append]
    rw [Varint.readLittle?_byte n.lt]
    simp
  · refine ⟨Varint.write n.val, ?_, fun rest => ?_⟩
    · exact congrArg Except.ok (if_neg hw)
    · simp only [ofCompact?, if_neg hw]
      rw [Varint.read?_write hw n.lt]
      simp

theorem exact_signed (w : Width) : Exact (Signed w) := by
  intro i _
  by_cases hw : w = .w8
  · subst hw
    have hle : -128 ≤ i.val := i.le
    have hlt : i.val < 128 := i.lt
    refine ⟨[.ofNat (i.val % 256).toNat], rfl, fun rest => ?_⟩
    -- a byte above 127 stands for the number 256 below it
    have hval : (if (i.val % 256).toNat < 128 then ((i.val % 256).toNat : Int) else (i.val % 256).toNat - 256) = i.val := by
      split <;> omega
    simp only [ofCompact?, if_true, List.cons_append, List.nil_append]
    rw [Varint.readLittle?_byte (by omega)]
    simp only [Option.bind_eq_bind, Option.bind_some, hval, Signed.ofInt?_val, Option.pure_def]
  · refine ⟨Varint.write (Varint.fold i.val), ?_, fun rest => ?_⟩
    · exact congrArg Except.ok (if_neg hw)
    · simp only [ofCompact?, if_neg hw]
      rw [Varint.read?_write hw (Varint.fold_lt i)]
      simp [Varint.unfold_fold]

theorem exact_string : Exact String := by
  intro s hfits
  have hlength : (utf8 s).length < Width.w64.count := hfits _ List.mem_cons_self
  refine ⟨lengthBytes (utf8 s).length ++ utf8 s, rfl, fun rest => ?_⟩
  have htext : ofUtf8? (utf8 s) = some s := by simp [ofUtf8?, utf8, Utf8.decode?_encode]
  simp only [ofCompact?]
  rw [List.append_assoc, readLength?_lengthBytes hlength]
  simp [Varint.splitAt?_append, htext]

theorem exact_kind : Exact EventKind := by
  intro k _
  cases k
  · exact ⟨[0], rfl, fun _ => rfl⟩
  · exact ⟨[1], rfl, fun _ => rfl⟩
  · exact ⟨[2], rfl, fun _ => rfl⟩
  · exact ⟨[3], rfl, fun _ => rfl⟩

section Parts

variable {α β : Type} [ToValue α] [OfCompact α] [ToValue β] [OfCompact β]

theorem exact_option (h : Exact α) : Exact (Option α) := by
  intro a? hfits
  cases a? with
  | none => exact ⟨[0], rfl, fun _ => rfl⟩
  | some a =>
    obtain ⟨d, hwritten, hread⟩ := h a hfits
    refine ⟨1 :: d, ?_, fun rest => ?_⟩
    · simp only [toValue, toCompact_present] at hwritten ⊢
      rw [hwritten]
      rfl
    · simp only [ofCompact?, List.cons_append] at hread ⊢
      rw [hread]
      rfl

/-- **Values that are read to their end can be read one after the other.** -/
theorem streams_many {as : List α} (h : ∀ a ∈ as, Streams a) :
    ∃ d, Value.allCompact (as.map toValue) = .ok d ∧ ∀ rest, readMany? as.length (d ++ rest) = some (as, rest) := by
  induction as with
  | nil => exact ⟨[], rfl, fun _ => rfl⟩
  | cons a as ih =>
    obtain ⟨d, hwritten, hread⟩ := h a List.mem_cons_self
    obtain ⟨ds, hwrittens, hreads⟩ := ih fun a' ha' => h a' (List.mem_cons_of_mem a ha')
    refine ⟨d ++ ds, ?_, fun rest => ?_⟩
    · rw [List.map_cons, allCompact_cons, hwritten, hwrittens]
      rfl
    · rw [List.append_assoc, List.length_cons, readMany?, hread]
      simp [hreads]

theorem exact_list (h : Exact α) : Exact (List α) := by
  intro as hfits
  have hlength : as.length < Width.w64.count := by
    have hfirst := hfits (as.map toValue).length List.mem_cons_self
    rwa [List.length_map] at hfirst
  obtain ⟨d, hwritten, hread⟩ := streams_many fun a ha => h a (fits_of_mem hfits ha)
  refine ⟨lengthBytes as.length ++ d, ?_, fun rest => ?_⟩
  · simp only [toValue, toCompact_seq, List.length_map] at hwritten ⊢
    rw [hwritten]
    rfl
  · simp only [ofCompact?]
    rw [List.append_assoc, readLength?_lengthBytes hlength]
    simp [hread]

theorem streams_pair {a : α} {b : β} (ha : Streams a) (hb : Streams b) : Streams (a, b) := by
  obtain ⟨d, hwritten, hread⟩ := ha
  obtain ⟨d', hwritten', hread'⟩ := hb
  refine ⟨d ++ d', ?_, fun rest => ?_⟩
  · simp only [toValue, toCompact_tuple, allCompact_cons, allCompact_nil] at hwritten hwritten' ⊢
    rw [hwritten, hwritten']
    simp [bind, Except.bind, pure, Except.pure]
  · simp only [ofCompact?] at hread hread' ⊢
    rw [List.append_assoc, hread]
    simp [hread']

theorem exact_pair (h : Exact α) (h' : Exact β) : Exact (α × β) := by
  rintro ⟨a, b⟩ hfits
  refine streams_pair (h a fun n hn => hfits n ?_) (h' b fun n hn => hfits n ?_)
  · exact List.mem_append_left _ hn
  · exact List.mem_append_right _ (List.mem_append_left _ hn)

theorem exact_directory (h : Exact α) : Exact (Directory α) := by
  intro d hfits
  have hlength : d.entries.length < Width.w64.count := by
    have hfirst := hfits _ List.mem_cons_self
    rwa [List.length_map] at hfirst
  have hentries : ∀ e ∈ d.entries, Streams e := by
    intro e he
    obtain ⟨hname, hvalue⟩ := fits_of_entry hfits he
    exact streams_pair (exact_string e.1 hname) (h e.2 hvalue)
  obtain ⟨bytes, hwritten, hread⟩ := streams_many hentries
  refine ⟨lengthBytes d.entries.length ++ bytes, ?_, fun rest => ?_⟩
  · rw [← entriesCompact_eq] at hwritten
    simp only [toValue, toCompact_map, List.length_map] at hwritten ⊢
    rw [hwritten]
    rfl
  · simp only [ofCompact?]
    rw [List.append_assoc, readLength?_lengthBytes hlength]
    simp [hread, Directory.ofList_entries]

/-- **What is written and read as its parts are** is read to its end if they are. -/
theorem exact_of_parts (parts : β → α) (whole : α → β) (hwhole : ∀ b, whole (parts b) = b)
    (hlengths : ∀ b, (toValue (parts b)).lengths = (toValue b).lengths)
    (hwritten : ∀ b, (toValue b).toCompact = (toValue (parts b)).toCompact)
    (hread : ∀ bytes, (ofCompact? bytes : Option (β × Bytes)) = (ofCompact? bytes).map fun p => (whole p.1, p.2))
    (h : Exact α) : Exact β := by
  intro b hfits
  obtain ⟨d, hd, hback⟩ := h (parts b) (by rwa [Value.Fits, hlengths])
  refine ⟨d, (hwritten b).trans hd, fun rest => ?_⟩
  rw [hread, hback, Option.map_some, hwhole]

/-- an event is its key, the values and the kind, one after the other -/
theorem exact_event (h : Exact α) (h' : Exact β) : Exact (MapEvent α β) := by
  refine exact_of_parts (fun e : MapEvent α β => (e.key, e.newValue, e.oldValue, e.kind))
    (fun p => ⟨p.1, p.2.1, p.2.2.1, p.2.2.2⟩) (fun _ => rfl) (fun e => ?_) (fun e => ?_) (fun bytes => ?_)
    (exact_pair h (exact_pair (exact_option h') (exact_pair (exact_option h') exact_kind)))
  · simp [toValue, Value.lengths, Value.itemLengths, Value.fieldLengths]
  · have hparts : (toValue (e.key, e.newValue, e.oldValue, e.kind)).toCompact =
        Value.allCompact [toValue e.key, .tuple [toValue e.newValue, .tuple [toValue e.oldValue, toValue e.kind]]] := rfl
    have hevent : (toValue e).toCompact =
        Value.allCompact [toValue e.key, toValue e.newValue, toValue e.oldValue, toValue e.kind] := fieldsCompact_eq _
    have hinner := allCompact_tuple (toValue e.newValue) [toValue e.oldValue, toValue e.kind]
    rw [hparts, hevent, allCompact_tuple]
    simp only [allCompact_cons] at hinner ⊢
    rw [hinner]
  · have hevent : (ofCompact? bytes : Option (MapEvent α β × Bytes)) =
        (ofCompact? bytes).bind fun p : α × Bytes => (ofCompact? p.2).bind fun q : Option β × Bytes =>
          (ofCompact? q.2).bind fun r : Option β × Bytes => (ofCompact? r.2).bind fun t : EventKind × Bytes =>
            some (⟨p.1, q.1, r.1, t.1⟩, t.2) := rfl
    simp only [hevent, ofCompact?_pair, Option.map_eq_bind, Option.bind_assoc, Option.bind_some, Function.comp_apply]

end Parts

theorem exact_order : Exact Order := by
  refine exact_of_parts (fun o : Order => (o.id, o.symbol)) (fun p => ⟨p.1, p.2⟩) (fun _ => rfl)
    (fun _ => rfl) (fun _ => ?_) (fun bytes => ?_) (exact_pair (exact_unsigned .w64) exact_string)
  · simp only [toValue, toCompact_fields, toCompact_tuple, fieldsCompact_cons, allCompact_cons]
    rfl
  · simp [ofCompact?]

/-! ## The types on the wire -/

/-- every value of the type has a compact form; it is read from the front of any bytes that begin with its form, and what is
left is what stands behind; and no form of another value begins with it -/
structure Delimited (α : Type) [ToValue α] [Json.OfDoc α] [OfCompact α] : Prop where
  recovers (a : α) (hfits : (toValue a).Fits) : ∃ d, Format.compact.encode a = .ok d ∧
    ∀ rest, Format.compact.decode? (d ++ rest) = some a ∧ ofCompact? (d ++ rest) = some (a, rest)
  apart (a b : α) (hfits : (toValue a).Fits) (hfits' : (toValue b).Fits) {d d' : Data} (h : Format.compact.encode a = .ok d)
    (h' : Format.compact.encode b = .ok d') (hbegins : d <+: d') : a = b

theorem Exact.delimited {α : Type} [ToValue α] [Json.OfDoc α] [OfCompact α] (h : Exact α) : Delimited α where
  recovers a hfits := by
    obtain ⟨d, hwritten, hread⟩ := h a hfits
    refine ⟨d, hwritten, fun rest => ⟨?_, hread rest⟩⟩
    rw [Format.decode?, hread, Option.map_some]
  apart a b hfits hfits' d d' hd hd' hbegins := by
    obtain ⟨_, hwritten, hread⟩ := h a hfits
    obtain ⟨_, hwritten', hread'⟩ := h b hfits'
    obtain rfl := Except.ok.inj (hwritten.symm.trans hd)
    obtain rfl := Except.ok.inj (hwritten'.symm.trans hd')
    obtain ⟨rest, rfl⟩ := hbegins
    -- with nothing behind them the bytes are `b`, and with the same bytes `a` is read first
    have hboth := (hread' []).symm.trans (by rw [List.append_nil, hread rest])
    exact (Prod.mk.inj (Option.some.inj hboth)).1.symm

/-- **The compact form is read to its end and no further**, for every value of the types on the wire and whatever bytes stand
behind it; so no form begins with that of another value of its type, and none is the form of two. -/
theorem compact_delimited : OnWire (fun α [ToValue α] [Json.OfDoc α] [OfCompact α] => Delimited α) where
  unsigned w := (exact_unsigned w).delimited
  signed w := (exact_signed w).delimited
  bool := exact_bool.delimited
  char := exact_char.delimited
  string := exact_string.delimited
  unit := exact_unit.delimited
  optionalNumber := (exact_option (exact_unsigned .w32)).delimited
  optionalString := (exact_option exact_string).delimited
  numbers := (exact_list (exact_unsigned .w32)).delimited
  strings := (exact_list exact_string).delimited
  pair := (exact_pair (exact_unsigned .w32) exact_string).delimited
  directory := (exact_directory (exact_unsigned .w32)).delimited
  order := exact_order.delimited
  event := (exact_event exact_string (exact_unsigned .w64)).delimited

/-- two strings, one with letters beyond ASCII and one empty, are read although more stands behind them -/
theorem compact_delimited_strings :
    Format.compact.encode ["Größe", ""] = .ok [2, 7, 71, 114, 195, 182, 195, 159, 101, 0] ∧
      Format.compact.decode? [2, 7, 71, 114, 195, 182, 195, 159, 101, 0, 255, 1] = some ["Größe", ""] := by
  have hform : Format.compact.encode ["Größe", ""] = .ok [2, 7, 71, 114, 195, 182, 195, 159, 101, 0] := by decide +kernel
  have hfits : (toValue ["Größe", ""]).Fits := by decide +kernel
  obtain ⟨d, hd, hread⟩ := compact_delimited.strings.recovers ["Größe", ""] hfits
  obtain rfl := Except.ok.inj (hd.symm.trans hform)
  exact ⟨hform, (hread [255, 1]).1⟩

end Wire
end Changefeed
