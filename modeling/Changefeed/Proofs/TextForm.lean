/-
The text form keeps every value. What is written in it is a neat document, and what a neat document says is what its text
says again; so it is left to see, type by type, that a value is read back from its own document.

Two things could be lost. An optional value that is not there is written as `null`, so that what an optional value holds must
never be written so (`Solid`). And a value of unknown type is read as deep as documents nest at most, and its members in the
order of their names, so it must not nest deeper and must have its members in that order (`Any.depth`, `Any.Ordered`).

Results:
- `faithful_option`, `faithful_list`, `faithful_pair`, `faithful_event`: parts that are read back make wholes that are;
- `Any.told_of_ordered`: so are values of unknown type;
- `recovers_of_doc`: what is read back from its document is read back from its text;
- `text_lossless`: every value of the types on the wire is written and read back, so that no two are written alike.
-/
import Changefeed.Proofs.Persistence
import Changefeed.Wire.Documents
import Changefeed.Wire.Order

namespace Changefeed

namespace Wire

/-! ## Reading back -/

/-- the value has a wire form, and is what is read from it -/
def Format.Recovers (f : Format) {α : Type} [ToValue α] [Json.OfDoc α] [OfCompact α] (a : α) : Prop :=
  ∃ d, f.encode a = .ok d ∧ f.decode? d = some a

/-- values that are read back have different wire forms -/
theorem Format.Recovers.eq {f : Format} {α : Type} [ToValue α] [Json.OfDoc α] [OfCompact α] {a b : α}
    (ha : f.Recovers a) (hb : f.Recovers b) (h : f.encode a = f.encode b) : a = b := by
  obtain ⟨d, hwritten, hread⟩ := ha
  obtain ⟨d', hwritten', hread'⟩ := hb
  have hd : d = d' := by rw [hwritten, hwritten'] at h; exact Except.ok.inj h
  rw [hd, hread'] at hread
  exact (Option.some.inj hread).symm

/-- every value of the type is read back, and no two are written alike -/
structure Format.Lossless (f : Format) (α : Type) [ToValue α] [Json.OfDoc α] [OfCompact α] : Prop where
  recovers : ∀ a : α, f.Recovers a
  distinct : ∀ a b : α, f.encode a = f.encode b → a = b

/-- what holds of each type that keys and values have on the wire -/
structure OnWire (P : (α : Type) → [ToValue α] → [Json.OfDoc α] → [OfCompact α] → Prop) : Prop where
  unsigned (w : Width) : P (Unsigned w)
  signed (w : Width) : P (Signed w)
  bool : P Bool
  char : P Char
  string : P String
  unit : P Unit
  optionalNumber : P (Option (Unsigned .w32))
  optionalString : P (Option String)
  numbers : P (List (Unsigned .w32))
  strings : P (List String)
  pair : P (Unsigned .w32 × String)
  directory : P (Directory (Unsigned .w32))
  order : P Order
  event : P (MapEvent String (Unsigned .w64))

end Wire

namespace Json

/-! ## Numbers -/

/-- a negative number is its amount with a sign -/
theorem Numeral.signed?_negSucc (n : ℕ) : signed? (write (.negSucc n)) = some (true, n + 1) := by
  have hread := natural?_write (n + 1)
  simp only [write, signed?, hread]
  rfl

/-- a whole number is read back -/
theorem Numeral.read?_write (i : Int) : read? (write i) = some i := by
  cases i with
  | ofNat n =>
    have hread : signed? (write (.ofNat n)) = some (false, n) := signed?_writeNat n
    simp only [read?, hread]
    rfl
  | negSucc n =>
    simp only [read?, signed?_negSucc, if_neg (Nat.succ_ne_zero n)]
    rfl

end Json

namespace Wire

open Json (Doc OfDoc ofDoc? members neat_members required withDefault)

/-! ## Type by type -/

theorem faithful_signed (w : Width) : Faithful (Signed w) := by
  intro i
  refine ⟨Value.numeral i.val, rfl, .number i.val, ?_⟩
  have hval := Signed.ofInt?_val i
  cases hi : i.val with
  | ofNat n =>
    have hread : Json.Numeral.signed? (Json.Numeral.write (.ofNat n)) = some (false, n) := Json.Numeral.signed?_writeNat n
    rw [hi] at hval
    simp only [ofDoc?, Value.numeral, hread]
    exact hval
  | negSucc n =>
    rw [hi] at hval
    simp only [ofDoc?, Value.numeral, Json.Numeral.signed?_negSucc]
    rw [if_neg fun h => Nat.succ_ne_zero n h.1]
    exact hval

theorem faithful_string : Faithful String :=
  fun s => ⟨.string (Json.Quoted.encode s), rfl, .string s, Json.Quoted.decode?_encode s⟩

theorem faithful_char : Faithful Char := by
  intro c
  refine ⟨.string (Json.Quoted.encode (String.ofList [c])), rfl, .string _, ?_⟩
  simp [ofDoc?, Doc.text?, Json.Quoted.decode?_encode]

theorem faithful_unit : Faithful Unit := fun _ => ⟨.null, rfl, .null, rfl⟩

theorem faithful_kind : Faithful EventKind := by
  intro k
  refine ⟨.string (Json.Quoted.encode k.name), rfl, .string k.name, ?_⟩
  simp only [ofDoc?, Doc.alternative?, Json.Quoted.decode?_encode, Option.bind_some]
  cases k <;> rfl

/-- no value of the type is written as `null` -/
def Solid (α : Type) [ToValue α] : Prop := ∀ a : α, (toValue a).toDoc ≠ .ok .null

theorem solid_unsigned (w : Width) : Solid (Unsigned w) := fun _ h => by cases h

theorem solid_string : Solid String := fun _ h => by cases h

section Parts

variable {α β : Type} [ToValue α] [OfDoc α] [ToValue β] [OfDoc β]

theorem faithful_option (h : Faithful α) (hsolid : Solid α) : Faithful (Option α) := by
  intro a?
  cases a? with
  | none => exact ⟨.null, rfl, .null, rfl⟩
  | some a =>
    obtain ⟨t, hwritten, hneat, hread⟩ := h a
    refine ⟨t, hwritten, hneat, ?_⟩
    have hnull : t ≠ .null := fun ht => hsolid a (ht ▸ hwritten)
    have hsome : (ofDoc? t : Option (Option α)) = (ofDoc? t).map some := by
      cases t with
      | null => exact absurd rfl hnull
      | _ => rfl
    rw [hsome, hread]
    rfl

theorem faithful_list (h : Faithful α) : Faithful (List α) := by
  choose doc hwritten hneat hread using h
  intro as
  have hdocs : Value.toDocs (as.map toValue) = .ok (as.map doc) := by
    induction as with
    | nil => rfl
    | cons a as ih =>
      simp only [List.map_cons, Value.toDocs, hwritten, ih]
      rfl
  refine ⟨.array (as.map doc), ?_, .array _ ?_, ?_⟩
  · simp only [toValue, Value.toDoc, hdocs]
    rfl
  · intro t ht
    obtain ⟨a, -, rfl⟩ := List.mem_map.1 ht
    exact hneat a
  · have hall : as.mapM (ofDoc? ∘ doc) = some (as.map id) := Json.mapM_some fun a _ => hread a
    simp only [ofDoc?]
    rw [List.mapM_map, hall, List.map_id]

theorem faithful_pair (h : Faithful α) (h' : Faithful β) : Faithful (α × β) := by
  rintro ⟨a, b⟩
  obtain ⟨t, hwritten, hneat, hread⟩ := h a
  obtain ⟨t', hwritten', hneat', hread'⟩ := h' b
  refine ⟨.array [t, t'], ?_, .array _ (by simp [hneat, hneat']), ?_⟩
  · simp only [toValue, Value.toDoc, Value.toDocs] at hwritten hwritten' ⊢
    rw [hwritten, hwritten']
    rfl
  · simp [ofDoc?, hread, hread']

theorem faithful_event (h : Faithful α) (h' : Faithful β) (hsolid : Solid β) : Faithful (MapEvent α β) := by
  intro e
  obtain ⟨key, hkey, hneat₁, hread₁⟩ := h e.key
  obtain ⟨new, hnew, hneat₂, hread₂⟩ := faithful_option h' hsolid e.newValue
  obtain ⟨old, hold, hneat₃, hread₃⟩ := faithful_option h' hsolid e.oldValue
  obtain ⟨kind, hkind, hneat₄, hread₄⟩ := faithful_kind e.kind
  let fields : List (String × Doc) := [("key", key), ("new_value", new), ("old_value", old), ("event_type", kind)]
  have hfound : (Doc.object (members fields)).fields? ["key", "new_value", "old_value", "event_type"] false =
      some [some key, some new, some old, some kind] :=
    Doc.fields?_object (show (fields.map Prod.fst).Nodup by simp [fields]) false
  refine ⟨.object (members fields), ?_, neat_members ?_, ?_⟩
  · exact toDoc_fields (.cons ⟨rfl, hkey⟩ (.cons ⟨rfl, hnew⟩ (.cons ⟨rfl, hold⟩ (.cons ⟨rfl, hkind⟩ .nil))))
  · simp [fields, hneat₁, hneat₂, hneat₃, hneat₄]
  · simp only [ofDoc?, hfound, Option.bind_eq_bind, Option.bind_some]
    simp [required, withDefault, hread₁, hread₂, hread₃, hread₄]

end Parts

theorem faithful_order : Faithful Order := by
  intro o
  obtain ⟨id, hid, hneat, hread⟩ := faithful_unsigned .w64 o.id
  obtain ⟨symbol, hsymbol, hneat', hread'⟩ := faithful_string o.symbol
  let fields : List (String × Doc) := [("id", id), ("symbol", symbol)]
  have hfound : (Doc.object (members fields)).fields? ["id", "symbol"] false = some [some id, some symbol] :=
    Doc.fields?_object (show (fields.map Prod.fst).Nodup by simp [fields]) false
  refine ⟨.object (members fields), ?_, neat_members ?_, ?_⟩
  · exact toDoc_fields (.cons ⟨rfl, hid⟩ (.cons ⟨rfl, hsymbol⟩ .nil))
  · simp [fields, hneat, hneat']
  · simp only [ofDoc?, hfound, Option.bind_eq_bind, Option.bind_some]
    simp [required, hread, hread']

/-- what is read back from its document is read back from its text -/
theorem recovers_of_doc {α : Type} [ToValue α] [OfDoc α] [OfCompact α] {a : α} {t : Doc}
    (hwritten : (toValue a).toDoc = .ok t) (hneat : t.Neat) (hread : ofDoc? t = some a) : Format.text.Recovers a := by
  refine ⟨t.write, ?_, ?_⟩
  · simp only [Format.encode, Value.toText, hwritten]
    rfl
  · simp only [Format.decode?, Json.read?, Json.parse?, Json.scan_write hneat, Option.bind_some, hread]

theorem Faithful.lossless {α : Type} [ToValue α] [OfDoc α] [OfCompact α] (h : Faithful α) : Format.text.Lossless α := by
  have hall : ∀ a : α, Format.text.Recovers a := by
    intro a
    obtain ⟨t, hwritten, hneat, hread⟩ := h a
    exact recovers_of_doc hwritten hneat hread
  exact ⟨hall, fun a b hsame => (hall a).eq (hall b) hsame⟩

end Wire

namespace Json.Any

open Wire (Value)

/-! ## Values of unknown type -/

/-- the members of every object are in the order of their names, each name once -/
inductive Ordered : Any → Prop
  | null : Ordered .null
  | bool (b : Bool) : Ordered (.bool b)
  | number (n : Whole) : Ordered (.number n)
  | string (s : String) : Ordered (.string s)
  | array (items : List Any) (h : ∀ v ∈ items, Ordered v) : Ordered (.array items)
  | object (members : List (String × Any)) (hsorted : members.Pairwise fun a b => a.1 < b.1)
      (h : ∀ m ∈ members, Ordered m.2) : Ordered (.object members)

mutual

/-- how deep arrays and objects nest -/
def depth : Any → ℕ
  | array items => depths items + 1
  | object members => memberDepths members + 1
  | _ => 0

def depths : List Any → ℕ
  | [] => 0
  | v :: vs => max v.depth (depths vs)

def memberDepths : List (String × Any) → ℕ
  | [] => 0
  | (_, v) :: ms => max v.depth (memberDepths ms)

end

theorem depth_le_depths {items : List Any} {v : Any} (h : v ∈ items) : v.depth ≤ depths items := by
  induction items with
  | nil => cases h
  | cons v' items ih =>
    rw [depths]
    rcases List.mem_cons.1 h with rfl | h
    · exact le_max_left _ _
    · exact le_trans (ih h) (le_max_right _ _)

theorem depth_le_memberDepths {members : List (String × Any)} {m : String × Any} (h : m ∈ members) :
    m.2.depth ≤ memberDepths members := by
  induction members with
  | nil => cases h
  | cons m' members ih =>
    rw [memberDepths]
    rcases List.mem_cons.1 h with rfl | h
    · exact le_max_left _ _
    · exact le_trans (ih h) (le_max_right _ _)

/-- the value has a neat document, and is what is read from it by a reader that goes so deep -/
def Told (depth : ℕ) (v : Any) : Prop := ∃ t, v.toValue.toDoc = .ok t ∧ t.Neat ∧ ofDoc? depth t = some v

theorem told_number (depth : ℕ) (n : Whole) : Told depth (.number n) := by
  have hdoc : (Any.number n).toValue.toDoc = .ok (Value.numeral n.val) := by
    rw [toValue]
    split
    · rfl
    · next hlarge =>
      have hpos : (n.val.toNat : Int) = n.val := by
        have hhalf : (0 : Int) ≤ Width.w64.half := Int.natCast_nonneg _
        omega
      rw [Value.toDoc, hpos]
  refine ⟨_, hdoc, .number n.val, ?_⟩
  have hwhole : Whole.ofInt? n.val = some n := by simp [Whole.ofInt?, n.le, n.lt]
  rw [Value.numeral, ofDoc?, Numeral.read?_write, Option.bind_some, hwhole]
  rfl

theorem told_items {depth : ℕ} {items : List Any} (h : ∀ v ∈ items, Told depth v) :
    ∃ ts, Value.toDocs (toValues items) = .ok ts ∧ (∀ t ∈ ts, t.Neat) ∧ ofDocs? depth ts = some items := by
  induction items with
  | nil => exact ⟨[], rfl, by simp, rfl⟩
  | cons v items ih =>
    obtain ⟨t, hwritten, hneat, hread⟩ := h v List.mem_cons_self
    obtain ⟨ts, hwrittens, hneats, hreads⟩ := ih fun v' hv' => h v' (List.mem_cons_of_mem v hv')
    refine ⟨t :: ts, ?_, ?_, ?_⟩
    · rw [toValues, Value.toDocs, hwritten, hwrittens]
      rfl
    · exact List.forall_mem_cons.2 ⟨hneat, hneats⟩
    · rw [ofDocs?, hread, hreads]
      rfl

theorem told_members {depth : ℕ} {ms : List (String × Any)} (h : ∀ m ∈ ms, Told depth m.2) :
    ∃ fields : List (String × Doc), Value.entryDocs (toEntries ms) = .ok (members fields) ∧
      (∀ p ∈ fields, p.2.Neat) ∧ ofMembers? depth (members fields) = some ms := by
  induction ms with
  | nil => exact ⟨[], rfl, by simp, rfl⟩
  | cons m ms ih =>
    obtain ⟨name, v⟩ := m
    obtain ⟨t, hwritten, hneat, hread⟩ := h (name, v) List.mem_cons_self
    obtain ⟨fields, hwrittens, hneats, hreads⟩ := ih fun m' hm' => h m' (List.mem_cons_of_mem _ hm')
    refine ⟨(name, t) :: fields, ?_, ?_, ?_⟩
    · rw [toEntries, Value.entryDocs, hwritten, hwrittens]
      rfl
    · exact List.forall_mem_cons.2 ⟨hneat, hneats⟩
    · rw [members, List.map_cons, ofMembers?, Quoted.decode?_encode, hread, ← members, hreads]
      rfl

/-- members that are in order are placed where they stand -/
theorem foldl_place {ms : List (String × Any)} (h : ms.Pairwise fun a b => a.1 < b.1) :
    ms.foldl (fun placed m => Directory.place m.1 m.2 placed) [] = ms := by
  have hentries : ∀ (l : List (String × Any)) (d : Directory Any), (l.foldl (fun d e => d.insert e.1 e.2) d).entries =
      l.foldl (fun placed m => Directory.place m.1 m.2 placed) d.entries := by
    intro l
    induction l with
    | nil => exact fun _ => rfl
    | cons e l ih => exact fun d => ih _
  have hsame := congrArg Directory.entries (Directory.ofList_entries ⟨ms, h⟩)
  rw [Directory.ofList, hentries] at hsame
  exact hsame

/-- **A value of unknown type is read back** by a reader that goes as deep as the value. -/
theorem told_of_ordered {v : Any} (h : v.Ordered) {depth : ℕ} (hdepth : v.depth ≤ depth) : Told depth v := by
  induction h generalizing depth with
  | null => exact ⟨.null, rfl, .null, rfl⟩
  | bool b => exact ⟨.bool b, rfl, .bool b, rfl⟩
  | number n => exact told_number depth n
  | string s =>
    refine ⟨.string (Quoted.encode s), rfl, .string s, ?_⟩
    rw [ofDoc?, Quoted.decode?_encode]
    rfl
  | array items _ ih =>
    -- one level is used up by the brackets
    obtain ⟨d, rfl⟩ : ∃ d, depth = d + 1 := ⟨depth - 1, by rw [Any.depth] at hdepth; omega⟩
    have hitems : ∀ v ∈ items, Told d v := fun v hv =>
      ih v hv (le_trans (depth_le_depths hv) (by rw [Any.depth] at hdepth; omega))
    obtain ⟨ts, hwritten, hneat, hread⟩ := told_items hitems
    refine ⟨.array ts, ?_, .array ts hneat, ?_⟩
    · rw [toValue, Value.toDoc, hwritten]
      rfl
    · rw [ofDoc?, if_neg (Nat.succ_ne_zero d), Nat.add_sub_cancel, hread]
      rfl
  | object ms hsorted _ ih =>
    obtain ⟨d, rfl⟩ : ∃ d, depth = d + 1 := ⟨depth - 1, by rw [Any.depth] at hdepth; omega⟩
    have hmembers : ∀ m ∈ ms, Told d m.2 := fun m hm =>
      ih m hm (le_trans (depth_le_memberDepths hm) (by rw [Any.depth] at hdepth; omega))
    obtain ⟨fields, hwritten, hneat, hread⟩ := told_members hmembers
    refine ⟨.object (members fields), ?_, neat_members hneat, ?_⟩
    · rw [toValue, Value.toDoc, hwritten]
      rfl
    · rw [ofDoc?, if_neg (Nat.succ_ne_zero d), Nat.add_sub_cancel, hread, Option.map_some, foldl_place hsorted]

theorem recovers {v : Any} (h : v.Ordered) (hdepth : v.depth ≤ maxDepth) : Wire.Format.text.Recovers v := by
  obtain ⟨t, hwritten, hneat, hread⟩ := told_of_ordered h hdepth
  exact Wire.recovers_of_doc hwritten hneat hread

end Json.Any

namespace Wire

/-- **The text form keeps every value.** Every value of the types on the wire is written, and read back from its text, so
that no two are written alike. So is every value of unknown type whose members are in the order of their names and that
nests at most 127 deep. -/
theorem text_lossless :
    OnWire (fun α [ToValue α] [Json.OfDoc α] [OfCompact α] => Format.text.Lossless α) ∧
    (∀ v : Json.Any, v.Ordered → v.depth ≤ 127 → Format.text.Recovers v) ∧
    ∀ v v' : Json.Any, v.Ordered → v.depth ≤ 127 → v'.Ordered → v'.depth ≤ 127 →
      Format.text.encode v = Format.text.encode v' → v = v' := by
  refine ⟨?_, fun v h hdepth => Json.Any.recovers h hdepth, ?_⟩
  · exact {
      unsigned := fun w => (faithful_unsigned w).lossless
      signed := fun w => (faithful_signed w).lossless
      bool := faithful_bool.lossless
      char := faithful_char.lossless
      string := faithful_string.lossless
      unit := faithful_unit.lossless
      optionalNumber := (faithful_option (faithful_unsigned .w32) (solid_unsigned .w32)).lossless
      optionalString := (faithful_option faithful_string solid_string).lossless
      numbers := (faithful_list (faithful_unsigned .w32)).lossless
      strings := (faithful_list faithful_string).lossless
      pair := (faithful_pair (faithful_unsigned .w32) faithful_string).lossless
      directory := (faithful_directory (faithful_unsigned .w32)).lossless
      order := faithful_order.lossless
      event := (faithful_event faithful_string (faithful_unsigned .w64) (solid_unsigned .w64)).lossless }
  · intro v v' h hdepth h' hdepth' hsame
    exact (Json.Any.recovers h hdepth).eq (Json.Any.recovers h' hdepth') hsame

/-- the greatest and the least whole number under a name of quotes, a backslash, a control character and letters beyond
ASCII, behind a member without a name -/
def oddAny (first : Json.Any) : Json.Any :=
  .object [("", first), ("\"Größe\"\\\x01", .array [.number ⟨18446744073709551615, by decide, by decide⟩,
    .number ⟨-9223372036854775808, by decide, by decide⟩, .null])]

/-- both are read back, and an object without members is not written as an array without items is -/
theorem text_lossless_odd :
    let v := oddAny (.object [])
    let v' := oddAny (.array [])
    v.Ordered ∧ v.depth = 2 ∧ v'.Ordered ∧ v'.depth = 2 ∧ Format.text.Recovers v ∧
      Format.text.encode v ≠ Format.text.encode v' := by
  intro v v'
  have hordered : ∀ first : Json.Any, first.Ordered → (oddAny first).Ordered := by
    intro first h
    have hfirst : "" < "\"Größe\"\\\x01" := by decide +kernel
    refine .object _ (List.pairwise_pair.2 hfirst) ?_
    simp only [List.forall_mem_cons, List.not_mem_nil, false_imp_iff, implies_true, and_true]
    refine ⟨h, .array _ ?_⟩
    simp only [List.forall_mem_cons, List.not_mem_nil, false_imp_iff, implies_true, and_true]
    exact ⟨.number _, .number _, .null⟩
  have h : v.Ordered := hordered _ (.object [] List.Pairwise.nil (by simp))
  have h' : v'.Ordered := hordered _ (.array [] (by simp))
  have hdepth : v.depth = 2 := rfl
  have hdepth' : v'.depth = 2 := rfl
  obtain ⟨-, hrecovers, hdistinct⟩ := text_lossless
  refine ⟨h, hdepth, h', hdepth', hrecovers v h (by omega), fun hsame => ?_⟩
  have heq := hdistinct v v' h (by omega) h' (by omega) hsame
  simp [v, v', oddAny] at heq

end Wire

end Changefeed
