/-
Reading in pages. A consumer that reads into one small batch after the other, each time from where the last batch says that the
next read goes on, gets what one read into a large batch would have given it: the large batch is not full while a page still has
room, so the larger read comes by every place at which a page ends.

None of this depends on what the slots of the ring hold, so it is shown of every container, whether it can come about or not.
That page after page misses no record does depend on it, and is shown of the containers that came about.

Results:
- `offerFrom_joined`: the larger scan comes to where the page ends, with the items of the page behind its own;
- `readPages_joined`: page after page is one read with the room of all of them;
- `Linked.stretches`: the stretches that the pages visit make one stretch;
- `paging_invisible`: for two pages, and for as many as it takes to get to the tail.
-/
import Changefeed.Proofs.Extent

namespace Changefeed

namespace Batch

variable {α β : Type}

/-- an empty batch with this filter and projection, and room for an item -/
def Fresh (filter : Option (α → Bool)) (project : α → β) (b : Batch α β) : Prop :=
  ∃ minSize maxSize, fresh minSize maxSize filter project = .ok b

theorem Fresh.terms {filter : Option (α → Bool)} {project : α → β} {b : Batch α β} (h : b.Fresh filter project) :
    b.filter = filter ∧ b.project = project ∧ b.kept = #[] ∧ b.visited = 0 ∧ 0 < b.maxSize := by
  obtain ⟨minSize, maxSize, hfresh⟩ := h
  obtain ⟨rfl, hpos, -⟩ := fresh_eq hfresh
  exact ⟨rfl, rfl, rfl, rfl, hpos⟩

/-- the batch `whole'` holds what `whole` does, and behind that what `page` does -/
structure Joined (whole page whole' : Batch α β) : Prop where
  kept : whole'.kept.toList = whole.kept.toList ++ page.kept.toList
  visited : whole'.visited = whole.visited + page.visited
  terms : SameTerms whole whole'

theorem Joined.size {whole page whole' : Batch α β} (h : Joined whole page whole') :
    whole'.kept.size = whole.kept.size + page.kept.size := by
  have hkept := congrArg List.length h.kept
  rwa [List.length_append, Array.length_toList, Array.length_toList, Array.length_toList] at hkept

/-- an empty page adds nothing -/
theorem joined_fresh {filter : Option (α → Bool)} {project : α → β} {page : Batch α β} (hpage : page.Fresh filter project)
    (whole : Batch α β) : Joined whole page whole := by
  obtain ⟨-, -, hkept, hvisited, -⟩ := hpage.terms
  exact ⟨by simp [hkept], by rw [hvisited, Nat.add_zero], SameTerms.refl whole⟩

theorem Joined.offer? {whole page whole' : Batch α β} (h : Joined whole page whole') (hfilter : page.filter = whole.filter)
    (hproject : page.project = whole.project) (s : Int) (found : Option α) :
    Joined whole (page.offer? s found) (whole'.offer? s found) := by
  refine ⟨?_, ?_, h.terms.trans (sameTerms_offer? whole' s found)⟩
  · cases found with
    | none => exact h.kept
    | some a =>
      have hkeeps : whole'.keeps a = page.keeps a := by
        rw [h.terms.keeps]
        simp only [Batch.keeps, hfilter]
      simp only [Batch.offer?, Option.elim_some, Batch.offer, hkeeps, h.terms.project, hproject]
      split <;> simp [h.kept]
  · cases found with
    | none => exact h.visited
    | some a => simp only [Batch.offer?, Option.elim_some, visited_offer, h.visited, Nat.add_assoc]

/-- a batch that holds what some others do, one behind the other, shows what they show -/
theorem shown_flatMap {r : Batch α β} {parts : List (Batch α β)}
    (h : r.kept.toList = parts.flatMap fun part => part.kept.toList) :
    r.items = parts.flatMap items ∧ r.sequences = parts.flatMap sequences := by
  refine ⟨?_, ?_⟩
  · rw [items, h, List.map_flatMap]
    rfl
  · rw [sequences, h, List.map_flatMap]
    rfl

/-- the sequences that were offered to a batch since it was empty, if a scan did that -/
def stretch (b : Batch α β) : List ℕ := List.range' (b.next.toNat - b.visited) b.visited

end Batch

namespace Container

open Batch (Joined SameTerms)

variable {α β : Type}

/-! ## One page -/

theorem sameTerms_offerFrom (r : RingBuffer α) (n : ℕ) (s : Int) (b : Batch α β) :
    SameTerms b (offerFrom r n s b).1 := by
  induction n generalizing s b with
  | zero => exact SameTerms.refl b
  | succ n ih =>
    cases hb : b.full with
    | true =>
      rw [offerFrom_full r _ s hb]
      exact SameTerms.refl b
    | false =>
      rw [offerFrom_succ r n s hb]
      exact (b.sameTerms_offer? s _).trans (ih _ _)

/-- a scan never overfills a batch -/
theorem size_offerFrom_le (r : RingBuffer α) (n : ℕ) (s : Int) {b : Batch α β} (h : b.kept.size ≤ b.maxSize) :
    (offerFrom r n s b).1.kept.size ≤ b.maxSize := by
  induction n generalizing s b with
  | zero => exact h
  | succ n ih =>
    cases hb : b.full with
    | true => rwa [offerFrom_full r _ s hb]
    | false =>
      simp only [Batch.full, decide_eq_false_iff_not, not_le] at hb
      have hsize := b.size_offer?_le s (r.read s)
      have hmax := (b.sameTerms_offer? s (r.read s)).maxSize
      rw [offerFrom_succ r n s (by simpa [Batch.full] using hb), ← hmax]
      exact ih (s + 1) (by omega)

/-- Where a page ends, the scan of a batch with the room of the page and more comes by: it holds the page behind what it held,
and goes on from there. -/
theorem offerFrom_joined (r : RingBuffer α) (n : ℕ) {s : Int} {whole page whole' : Batch α β}
    (h : Joined whole page whole') (hfilter : page.filter = whole.filter) (hproject : page.project = whole.project)
    (hroom : whole.kept.size + page.maxSize ≤ whole.maxSize) :
    ∃ k ≤ n, ∃ whole'', Joined whole (offerFrom r n s page).1 whole'' ∧ (offerFrom r n s page).2 = s + k ∧
      offerFrom r n s whole' = offerFrom r (n - k) (s + k) whole'' ∧ (k = n ∨ (offerFrom r n s page).1.full = true) := by
  induction n generalizing s page whole' with
  | zero => exact ⟨0, le_rfl, whole', h, by simp [offerFrom], by simp, Or.inl rfl⟩
  | succ n ih =>
    cases hpage : page.full with
    | true =>
      rw [offerFrom_full r _ s hpage]
      exact ⟨0, Nat.zero_le _, whole', h, by simp, by simp, Or.inr hpage⟩
    | false =>
      have hwhole : whole'.full = false := by
        simp only [Batch.full, decide_eq_false_iff_not, not_le] at hpage ⊢
        have hsize := h.size
        have hmax := h.terms.maxSize
        omega
      have hterms := page.sameTerms_offer? s (r.read s)
      obtain ⟨k, hk, whole'', hjoined, hstop, hgoes, hend⟩ := ih (s := s + 1) (h.offer? hfilter hproject s (r.read s))
        (hterms.filter.trans hfilter) (hterms.project.trans hproject) (hterms.maxSize ▸ hroom)
      have hshift : s + 1 + (k : Int) = s + ((k + 1 : ℕ) : Int) := by
        push_cast
        omega
      rw [hshift] at hstop hgoes
      rw [offerFrom_succ r n s hpage, offerFrom_succ r n s hwhole, hgoes]
      exact ⟨k + 1, by omega, whole'', hjoined, hstop, by rw [Nat.add_sub_add_right], hend.imp (by omega) id⟩

/-- Of a batch that has room for a page and more, a read begins with the page: there is a batch that holds the page behind what
it held, and the read goes on with this batch where the page ended. -/
theorem readMany_page {filter : Option (α → Bool)} {project : α → β} {c : Container α} {s : Int} (hs : c.head ≤ s)
    (hs' : s ≤ c.tail + 1) {page whole : Batch α β} (hpage : page.Fresh filter project) (hfilter : whole.filter = filter)
    (hproject : whole.project = project) (hroom : whole.kept.size + page.maxSize ≤ whole.maxSize) :
    ∃ part whole', c.readMany s page = .ok (part, part.visited) ∧ Joined whole part whole' ∧
      s ≤ part.next ∧ part.next ≤ c.tail + 1 ∧ part.kept.size ≤ page.maxSize ∧
      (part.next = c.tail + 1 ∨ part.kept.size = page.maxSize) ∧
      ∀ r n, c.readMany part.next whole' = .ok (r, n) → c.readMany s whole = .ok (r, r.visited - whole.visited) := by
  obtain ⟨hpagefilter, hpageproject, hpagekept, hpagevisited, -⟩ := hpage.terms
  have hempty : page.kept.size = 0 := by rw [hpagekept, Array.size_empty]
  obtain ⟨k, hk, whole', hjoined, hstop, hgoes, hend⟩ := offerFrom_joined c.ring (c.tail + 1 - s).toNat (s := s)
    (Batch.joined_fresh hpage whole) (hpagefilter.trans hfilter.symm) (hpageproject.trans hproject.symm) hroom
  have hmax := (sameTerms_offerFrom c.ring (c.tail + 1 - s).toNat s page).maxSize
  have hsize := size_offerFrom_le c.ring (c.tail + 1 - s).toNat s (b := page) (by omega)
  have hread := readMany_eq hs hs' page
  rw [hpagevisited, Nat.sub_zero] at hread
  refine ⟨_, whole', hread, ⟨hjoined.kept, hjoined.visited, hjoined.terms⟩, ?_⟩
  simp only [hstop]
  refine ⟨by omega, by omega, hsize, ?_, ?_⟩
  · rcases hend with rfl | hfull
    · exact Or.inl (by omega)
    · rw [Batch.full, decide_eq_true_iff] at hfull
      exact Or.inr (by omega)
  · intro r n hgoes'
    have hrest : (c.tail + 1 - s).toNat - k = (c.tail + 1 - (s + k)).toNat := by omega
    rw [readMany_eq (by omega) (by omega), Except.ok.injEq, Prod.mk.injEq] at hgoes'
    rw [readMany_eq hs hs', hgoes, hrest, ← hgoes'.1]

/-! ## Page after page -/

/-- reads into batch after batch, each time from where the read before it ended; gives the batches and where the last one ended -/
def readPages (c : Container α) : Int → List (Batch α β) → Except JournalError (List (Batch α β) × Int)
  | s, [] => .ok ([], s)
  | s, page :: pages =>
    match c.readMany s page with
    | .error e => .error e
    | .ok (part, _) =>
      match c.readPages part.next pages with
      | .error e => .error e
      | .ok (parts, stop) => .ok (part :: parts, stop)

variable {filter : Option (α → Bool)} {project : α → β} {c : Container α}

theorem readPages_cons {s : Int} {page part : Batch α β} {pages parts : List (Batch α β)} {n : ℕ} {stop : Int}
    (hread : c.readMany s page = .ok (part, n)) (hrest : c.readPages part.next pages = .ok (parts, stop)) :
    c.readPages s (page :: pages) = .ok (part :: parts, stop) := by
  rw [readPages, hread]
  simp only [hrest]

theorem readPages_ok {s : Int} {page : Batch α β} {pages parts : List (Batch α β)} {stop : Int}
    (h : c.readPages s (page :: pages) = .ok (parts, stop)) :
    ∃ part n rest, c.readMany s page = .ok (part, n) ∧ c.readPages part.next pages = .ok (rest, stop) ∧
      parts = part :: rest := by
  rw [readPages] at h
  split at h
  · cases h
  · next part n hread =>
    split at h
    · cases h
    · next rest stop' hrest =>
      cases h
      exact ⟨part, n, rest, hread, hrest, rfl⟩

/-- **Page after page is one read.** A batch that has room for all the pages holds, after one read, what it held before and
behind it what the pages hold; and the read ends where the last page does. -/
theorem readPages_joined {pages : List (Batch α β)} (hpages : ∀ page ∈ pages, page.Fresh filter project) {s : Int}
    (hs : c.head ≤ s) (hs' : s ≤ c.tail + 1) {whole : Batch α β} (hfilter : whole.filter = filter)
    (hproject : whole.project = project) (hroom : whole.kept.size + (pages.map Batch.maxSize).sum ≤ whole.maxSize)
    (hexact : s = c.tail + 1 ∨ whole.maxSize = whole.kept.size + (pages.map Batch.maxSize).sum) :
    ∃ parts r, c.readPages s pages = .ok (parts, r.next) ∧ c.readMany s whole = .ok (r, r.visited - whole.visited) ∧
      r.kept.toList = whole.kept.toList ++ parts.flatMap (fun part => part.kept.toList) ∧
      r.visited = whole.visited + (parts.map Batch.visited).sum := by
  induction pages generalizing s whole with
  | nil =>
    refine ⟨[], { whole with next := s }, rfl, ?_, by simp, rfl⟩
    rw [Nat.sub_self]
    rcases hexact with rfl | hfull
    · exact readMany_upcoming hs whole
    · refine readMany_full hs hs' ?_
      simp only [List.map_nil, List.sum_nil, Nat.add_zero] at hfull
      simp [Batch.full, hfull]
  | cons page pages ih =>
    rw [List.map_cons, List.sum_cons] at hroom hexact
    obtain ⟨part, whole', hread, hjoined, hnext, hnext', hpart, hend, hgoes⟩ :=
      readMany_page hs hs' (hpages page List.mem_cons_self) hfilter hproject (by omega)
    have hsize := hjoined.size
    have hmax := hjoined.terms.maxSize
    have hexact' : part.next = c.tail + 1 ∨ whole'.maxSize = whole'.kept.size + (pages.map Batch.maxSize).sum := by
      omega
    obtain ⟨parts, r, hrest, hwhole, hkept, hvisited⟩ := ih (fun page' hmem => hpages page' (List.mem_cons_of_mem page hmem))
      (by omega) hnext' (hjoined.terms.filter.trans hfilter) (hjoined.terms.project.trans hproject) (by omega) hexact'
    refine ⟨part :: parts, r, readPages_cons hread hrest, hgoes r _ hwhole, ?_, ?_⟩
    · rw [hkept, hjoined.kept, List.flatMap_cons, List.append_assoc]
    · rw [hvisited, hjoined.visited, List.map_cons, List.sum_cons, Nat.add_assoc]

/-! ## To the tail -/

/-- each page begins where the one before it ended, the first at `s`, and the last ends at `n` -/
inductive Linked (past : List α) (c : Container α) : ℕ → List (Batch α β) → List (Batch α β) → ℕ → Prop
  | done (s : ℕ) : Linked past c s [] [] s
  | page {s m n : ℕ} {page part : Batch α β} {pages parts : List (Batch α β)} :
      Scanned past c page s m part → Linked past c m pages parts n → Linked past c s (page :: pages) (part :: parts) n

variable {past : List α}

theorem Linked.le {s n : ℕ} {pages parts : List (Batch α β)} (h : Linked past c s pages parts n) : s ≤ n := by
  induction h with
  | done s => exact le_rfl
  | page hscanned _ ih => exact hscanned.least.1.1.trans ih

/-- what the pages visited, one behind the other, is one stretch -/
theorem Linked.stretches {s n : ℕ} {pages parts : List (Batch α β)} (h : Linked past c s pages parts n)
    (hpages : ∀ page ∈ pages, page.Fresh filter project) :
    parts.flatMap Batch.stretch = List.range' s (n - s) := by
  induction h with
  | done s => simp
  | @page s m n page part pages parts hscanned hlinked ih =>
    obtain ⟨-, -, -, hvisited, -⟩ := (hpages page List.mem_cons_self).terms
    have hm : s ≤ m := hscanned.least.1.1
    have hn : m ≤ n := hlinked.le
    have hstretch : part.stretch = List.range' s (m - s) := by
      rw [Batch.stretch, hscanned.next, hscanned.visited, hvisited, Nat.zero_add, Int.toNat_natCast, Nat.sub_sub_self hm]
    have hrest : List.range' m (n - m) = List.range' (s + (m - s)) (n - m) := by rw [Nat.add_sub_cancel' hm]
    rw [List.flatMap_cons, ih fun page' hmem => hpages page' (List.mem_cons_of_mem page hmem), hstretch, hrest,
      List.range'_append_1, show m - s + (n - m) = n - s by omega]

/-- a page that does not end at the tail gets on -/
theorem Scanned.advances {s n : ℕ} {page part : Batch α β} (h : Scanned past c page s n part)
    (hpage : page.Fresh filter project) : (n : Int) = c.tail + 1 ∨ s < n := by
  obtain ⟨-, -, hkept, -, hpos⟩ := hpage.terms
  refine h.least.1.2.2.imp_right fun hfull => ?_
  have hcount := List.countP_le_length (p := fun a => page.filter.all fun p => p a) (l := (past.drop s).take (n - s))
  have hlength := List.length_take_le (n - s) (past.drop s)
  rw [Batch.heldAt, hkept, Array.size_empty] at hfull
  omega

theorem Records.linked (h : c.Records past) {pages : List (Batch α β)} (hpages : ∀ page ∈ pages, page.Fresh filter project)
    {s : ℕ} (hs : c.head ≤ s) (hs' : s ≤ past.length) :
    ∃ (n : ℕ) (parts : List (Batch α β)), c.readPages s pages = .ok (parts, n) ∧ Linked past c s pages parts n ∧
      n ≤ past.length ∧ (n = past.length ∨ s + pages.length ≤ n) := by
  have htail := h.tail
  induction pages generalizing s with
  | nil => exact ⟨s, [], rfl, .done s, hs', Or.inr le_rfl⟩
  | cons page pages ih =>
    have hpage := hpages page List.mem_cons_self
    have hempty : page.kept.size ≤ page.maxSize := by simp [hpage.terms.2.2.1]
    obtain ⟨m, part, hread, hscanned⟩ := h.scanned hs hs' hempty
    have hm : s ≤ m := hscanned.least.1.1
    have hm' : (m : Int) ≤ c.tail + 1 := hscanned.least.1.2.1
    have hgets := hscanned.advances hpage
    obtain ⟨n, parts, hrest, hlinked, hn, hend⟩ := ih (fun page' hmem => hpages page' (List.mem_cons_of_mem page hmem))
      (show c.head ≤ m by omega) (by omega)
    have hle := hlinked.le
    refine ⟨n, part :: parts, readPages_cons hread (hscanned.next ▸ hrest), .page hscanned hlinked, hn, ?_⟩
    rw [List.length_cons]
    omega

/-- page after page shows the records of the stretch that pass the filter, projected, in order -/
theorem Records.shown_pages (h : c.Records past) {pages parts : List (Batch α β)}
    (hpages : ∀ page ∈ pages, page.Fresh filter project) {s n : ℕ} (hs : c.head ≤ s) (hs' : s ≤ past.length)
    (hread : c.readPages s pages = .ok (parts, n)) :
    parts.flatMap Batch.items = (((past.drop s).take (n - s)).filter fun a => filter.all fun p => p a).map project ∧
      parts.flatMap Batch.sequences =
        ((List.range' s (n - s)).filter fun t => past[t]?.any fun a => filter.all fun p => p a).map Int.ofNat := by
  have htail := h.tail
  -- what one read with the room of all the pages shows
  let whole : Batch α β := ⟨0, (pages.map Batch.maxSize).sum, filter, project, #[], 0, 0⟩
  have hterms : whole.filter = filter ∧ whole.project = project := ⟨rfl, rfl⟩
  have hroom : whole.maxSize = whole.kept.size + (pages.map Batch.maxSize).sum := (Nat.zero_add _).symm
  obtain ⟨parts', r, hread', hwhole, hkept, -⟩ :=
    readPages_joined hpages hs (by omega) hterms.1 hterms.2 hroom.ge (Or.inr hroom)
  obtain ⟨m, r', hwhole', hscanned⟩ := h.scanned (b := whole) hs hs' (Nat.zero_le _)
  obtain ⟨rfl, hn⟩ : parts = parts' ∧ (n : Int) = r.next := by simpa [hread] using hread'
  obtain ⟨rfl, -⟩ : r = r' ∧ _ := by simpa [hwhole] using hwhole'
  obtain rfl : n = m := by exact_mod_cast hn.trans hscanned.next
  obtain ⟨hitems, hsequences⟩ := Batch.shown_flatMap hkept
  exact ⟨hitems.symm.trans hscanned.items, hsequences.symm.trans hscanned.sequences⟩

/-- **Paging is invisible.** From any position that is accepted, by any container, two pages give what one read with the room of
both would have given, and the second ends where that read does. And in a container that stays as it is, page after page, of any
sizes, visits a stretch of the records: every one of them once, up to the tail if there are pages enough. -/
theorem paging_invisible {s : Int} (hs : c.head ≤ s) (hs' : s ≤ c.tail + 1) (filter : Option (α → Bool)) (project : α → β) :
    (∀ b₁ b₂ b : Batch α β, b₁.Fresh filter project → b₂.Fresh filter project → b.Fresh filter project →
      b.maxSize = b₁.maxSize + b₂.maxSize →
      ∃ r₁ k₁ r₂ k₂ r k, c.readMany s b₁ = .ok (r₁, k₁) ∧ c.readMany r₁.next b₂ = .ok (r₂, k₂) ∧
        c.readMany s b = .ok (r, k) ∧ r.items = r₁.items ++ r₂.items ∧ r.sequences = r₁.sequences ++ r₂.sequences ∧
        r.visited = r₁.visited + r₂.visited ∧ r.next = r₂.next) ∧
    ∀ acts : List (Act α), c.Underwent acts →
      ∀ pages : List (Batch α β), (∀ page ∈ pages, page.Fresh filter project) →
        ∃ (first n : ℕ) (parts : List (Batch α β)), s = first ∧ c.readPages s pages = .ok (parts, n) ∧
          Linked (Act.items acts) c first pages parts n ∧ (n : Int) ≤ c.tail + 1 ∧
          (c.tail + 1 ≤ s + pages.length → (n : Int) = c.tail + 1) ∧
          parts.flatMap Batch.stretch = List.range' first (n - first) ∧
          parts.flatMap Batch.items =
            ((((Act.items acts).drop first).take (n - first)).filter fun a => filter.all fun p => p a).map project ∧
          parts.flatMap Batch.sequences = ((List.range' first (n - first)).filter fun t =>
            (Act.items acts)[t]?.any fun a => filter.all fun p => p a).map Int.ofNat := by
  refine ⟨?_, ?_⟩
  · intro b₁ b₂ b h₁ h₂ h hmax
    obtain ⟨hfilter, hproject, hkept, hvisited, -⟩ := h.terms
    have hsum : b.maxSize = b.kept.size + ([b₁, b₂].map Batch.maxSize).sum := by simp [hkept, hmax]
    have hboth : ∀ page ∈ [b₁, b₂], page.Fresh filter project := by simp [h₁, h₂]
    obtain ⟨parts, r, hpages, hread, hparts, hcount⟩ :=
      readPages_joined hboth hs hs' hfilter hproject hsum.ge (Or.inr hsum)
    obtain ⟨r₁, k₁, rest, hread₁, hrest, rfl⟩ := readPages_ok hpages
    obtain ⟨r₂, k₂, rest', hread₂, hend, rfl⟩ := readPages_ok hrest
    obtain ⟨rfl, hnext⟩ : [] = rest' ∧ r₂.next = r.next := by simpa [readPages] using hend
    rw [hkept, Array.toList_empty, List.nil_append] at hparts
    obtain ⟨hitems, hsequences⟩ := Batch.shown_flatMap hparts
    refine ⟨r₁, k₁, r₂, k₂, r, _, hread₁, hread₂, hread, ?_, ?_, ?_, hnext.symm⟩
    · simpa using hitems
    · simpa using hsequences
    · simpa [hvisited] using hcount
  · intro acts hunderwent pages hpages
    have hrecords := hunderwent.records
    have htail := hrecords.tail
    obtain ⟨first, rfl⟩ := hrecords.natural hs
    obtain ⟨n, parts, hread, hlinked, hn, hend⟩ := hrecords.linked hpages hs (by omega)
    obtain ⟨hitems, hsequences⟩ := hrecords.shown_pages hpages hs (by omega) hread
    exact ⟨first, n, parts, rfl, hread, hlinked, by omega, fun henough => by omega, hlinked.stretches hpages, hitems, hsequences⟩

/-- a page for letters that leaves one of them out -/
def lettersPage (size : ℕ) : Batch Char ℕ := ⟨0, size, some (· ≠ 'd'), Char.toNat, #[], 0, 0⟩

theorem fresh_lettersPage {size : ℕ} (h : 0 < size) : (lettersPage size).Fresh (some (· ≠ 'd')) Char.toNat :=
  ⟨0, size, by rw [Batch.fresh, if_neg h.ne', if_neg (Nat.not_lt_zero size), lettersPage]⟩

/-- a page for one letter and one for two, or four pages for one, from the head of a ring that went round -/
theorem paging_invisible_letters :
    sixLetters.head = 2 ∧ sixLetters.tail = 5 ∧
      (∃ r₁ k₁ r₂ k₂ r k, sixLetters.readMany 2 (lettersPage 1) = .ok (r₁, k₁) ∧
        sixLetters.readMany r₁.next (lettersPage 2) = .ok (r₂, k₂) ∧ sixLetters.readMany 2 (lettersPage 3) = .ok (r, k) ∧
        r.items = r₁.items ++ r₂.items ∧ r.sequences = r₁.sequences ++ r₂.sequences ∧
        r.visited = r₁.visited + r₂.visited ∧ r.next = r₂.next) ∧
      ∃ parts, sixLetters.readPages 2 (List.replicate 4 (lettersPage 1)) = .ok (parts, 6) ∧
        parts.flatMap Batch.stretch = [2, 3, 4, 5] ∧ parts.flatMap Batch.items = [99, 101, 102] ∧
        parts.flatMap Batch.sequences = [2, 4, 5] := by
  have hhead : sixLetters.head = 2 := by decide
  have htail : sixLetters.tail = 5 := by decide
  obtain ⟨htwo, hmany⟩ :=
    paging_invisible (c := sixLetters) (s := 2) (by decide) (by decide) (some (· ≠ 'd')) Char.toNat
  refine ⟨hhead, htail, ?_, ?_⟩
  · exact htwo _ _ _ (fresh_lettersPage one_pos) (fresh_lettersPage two_pos) (fresh_lettersPage three_pos) rfl
  · obtain ⟨first, n, parts, hfirst, hread, -, -, hend, hstretches, hitems, hsequences⟩ := hmany sixActs underwent_sixLetters
      (List.replicate 4 (lettersPage 1)) fun page hpage => List.eq_of_mem_replicate hpage ▸ fresh_lettersPage one_pos
    obtain rfl : first = 2 := by exact_mod_cast hfirst.symm
    obtain rfl : n = 6 := by
      have hn := hend (by decide)
      omega
    exact ⟨parts, hread, hstretches, hitems.trans (by decide), hsequences.trans (by decide)⟩

end Container

end Changefeed
