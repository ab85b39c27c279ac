import LedgerBench.Proofs.Template.Scan
import LedgerBench.Proofs.Text.Numeral
import LedgerBench.Template.Resolve
/-!
How much a template can grow by its pads.

A pad makes a long text of a short body, so what it may produce is bounded. What is proved:
  1. `resolvePad_eq_ok_iff`: a pad is resolved exactly if its body has one comma with a numeral in
     front, and the bytes of that many copies of what stands behind it, as an exact product, are
     within the bound. It then stands for these copies.
  2. `calls_resolvePad`: a pass resolves every pad of a text by its body alone, and changes nothing
     in the scope.
  3. `bytesOf_rewritten_le`: a pass over a text adds no more bytes than the expressions of the text
     come to.
  4. `Scope.pads_bounded`: so the pass for pads adds no more than the bound for every pad of the
     text it started from.
-/

namespace LedgerBench

/-- The bytes of a text in UTF-8. -/
def bytesOf (s : List Char) : Nat := (String.ofList s).utf8ByteSize

theorem bytesOf_append (xs ys : List Char) : bytesOf (xs ++ ys) = bytesOf xs + bytesOf ys := by
  rw [bytesOf, String.ofList_append, String.utf8ByteSize_append]
  rfl

theorem bytesOf_replicate (n : Nat) (s : List Char) :
    bytesOf (List.replicate n s).flatten = n * bytesOf s := by
  induction n with
  | zero =>
    rw [Nat.zero_mul]
    rfl
  | succ n ih =>
    rw [List.replicate_succ, List.flatten_cons, bytesOf_append, ih, Nat.succ_mul, Nat.add_comm]

theorem utf8Length_eq (s : List Char) : utf8Length s = bytesOf s := by
  -- The sum goes on from what was added up before.
  have general :
      ∀ (s : List Char) (n : Nat), s.foldl (fun n c => n + c.utf8Size) n = n + bytesOf s := by
    intro s
    induction s with
    | nil => intro n; rfl
    | cons c rest ih =>
      intro n
      have hone : bytesOf [c] = c.utf8Size := by simp [bytesOf]
      rw [List.foldl_cons, ih, ← List.singleton_append, bytesOf_append, hone, Nat.add_assoc]
  rw [utf8Length, general, Nat.zero_add]

/-! ## One pad -/

/-- A body that asks for `n` copies of `chars`: its only comma stands behind a numeral, which may
have blanks around it, and the copies are not too long. -/
structure Pads (body : List Char) (n : Nat) (chars : List Char) : Prop where
  shape : ∃ left numeral right, body = left ++ numeral ++ right ++ ',' :: chars ∧
    Text.IsNumeral numeral n ∧
    (∀ c ∈ left, Text.isBlank c = true) ∧ ∀ c ∈ right, Text.isBlank c = true
  oneComma : body.count ',' = 1
  counted : n < 2 ^ 64
  fits : n * bytesOf chars ≤ 2 ^ 20

theorem padCount?_eq_some_iff {count chars : List Char} {n : Nat} :
    padCount? count chars = some n ↔ Text.IsNumeral (Text.trim count) n ∧ n < 2 ^ 64 ∧
      n * bytesOf chars ≤ 2 ^ 20 := by
  unfold padCount?
  rw [Option.filter_eq_some_iff, Text.readUnsigned?_eq_some_iff, utf8Length_eq,
    decide_eq_true_eq, and_assoc]
  rfl

theorem pads_iff {body chars : List Char} {n : Nat} :
    Pads body n chars ↔ ∃ count, Text.splitPair ',' body = some (count, chars) ∧
      padCount? count chars = some n := by
  constructor
  · intro h
    obtain ⟨left, numeral, right, hbody, hnumeral, hleft, hright⟩ := h.shape
    refine ⟨left ++ numeral ++ right, Text.splitPair_eq_some_iff.mpr ⟨hbody, h.oneComma⟩,
      padCount?_eq_some_iff.mpr ⟨?_, h.counted, h.fits⟩⟩
    rw [Text.trim_append hleft hright hnumeral.not_isBlank hnumeral.ne_nil]
    exact hnumeral
  · intro h
    obtain ⟨count, hsplit, hcount⟩ := h
    obtain ⟨hbody, hone⟩ := Text.splitPair_eq_some_iff.mp hsplit
    obtain ⟨hnumeral, hcounted, hfits⟩ := padCount?_eq_some_iff.mp hcount
    obtain ⟨left, right, htrim, hleft, hright⟩ := Text.exists_trim count
    refine ⟨⟨left, Text.trim count, right, ?_, hnumeral, hleft, hright⟩, hone, hcounted, hfits⟩
    rw [← htrim]
    exact hbody

/-- A pad stands for the copies that its body asks for, and for nothing else. -/
theorem resolvePad_eq_ok_iff {body text : List Char} :
    resolvePad body = .ok text ↔ ∃ n chars, Pads body n chars ∧
      text = (List.replicate n chars).flatten := by
  have hcopies : ∀ (n : Nat) (chars : List Char), (if chars = [] then [] else repeatText n chars) =
      (List.replicate n chars).flatten := by
    intro n chars
    by_cases hchars : chars = []
    · simp [hchars]
    · rw [if_neg hchars]
      rfl
  simp only [pads_iff]
  unfold resolvePad
  constructor
  · intro h
    cases hsplit : Text.splitPair ',' body with
    | none =>
      rw [hsplit] at h
      cases h
    | some pair =>
      obtain ⟨count, chars⟩ := pair
      cases hcount : padCount? count chars with
      | none =>
        simp only [hsplit, hcount] at h
        cases h
      | some n =>
        simp only [hsplit, hcount, hcopies] at h
        exact ⟨n, chars, ⟨count, rfl, hcount⟩, (Except.ok.inj h).symm⟩
  · intro h
    obtain ⟨n, chars, ⟨count, hsplit, hcount⟩, rfl⟩ := h
    simp only [hsplit, hcount, hcopies]

/-- As many copies as would make no byte at all in 64 bits are too many. -/
example : resolvePad "9223372036854775808,ab".toList =
    .error (.invalidNumber .pad "9223372036854775808".toList) := by decide +kernel

theorem bytesOf_resolvePad_le {body text : List Char} (h : resolvePad body = .ok text) :
    bytesOf text ≤ 2 ^ 20 := by
  obtain ⟨n, chars, hpads, rfl⟩ := resolvePad_eq_ok_iff.mp h
  rw [bytesOf_replicate]
  exact hpads.fits

/-! ## A pass -/

/-- The pads of a text are resolved one by one, and nothing but their bodies decides what they come
to. -/
theorem calls_resolvePad (scope : Scope) (bodies : List (List Char)) :
    Calls (Scope.resolveM .pad) scope bodies (bodies.map resolvePad) scope := by
  induction bodies with
  | nil => exact .done scope
  | cons body rest ih => exact .call rfl ih

theorem bytesOf_rewritten_le {form : Form} {limit : Nat} (hits : List Hit) {rs : List Resolution}
    (tail : List Char) (h : ∀ r ∈ rs, ∀ text, r = .ok text → bytesOf text ≤ limit) :
    bytesOf (form.rewritten hits rs tail)
      ≤ bytesOf ((hits.flatMap fun hit => hit.before ++ form.written hit.body) ++ tail) +
        hits.length * limit := by
  induction hits generalizing rs with
  | nil => simp [Form.rewritten]
  | cons hit hits ih =>
    rw [List.flatMap_cons, List.append_assoc, bytesOf_append, List.length_cons, Nat.succ_mul]
    cases rs with
    | nil =>
      have hrest := @ih [] (by simp)
      simp only [Form.rewritten, List.zipWith_nil_right] at hrest ⊢
      omega
    | cons r rs =>
      obtain ⟨hr, hrs⟩ := List.forall_mem_cons.mp h
      have hrest := ih hrs
      -- An expression that is kept is as long as before, and one that is replaced is within the
      -- limit.
      have hshown : bytesOf (form.shown hit.body r) ≤ bytesOf (form.written hit.body) + limit := by
        cases r with
        | ok text => exact Nat.le_add_left_of_le (hr text rfl)
        | error e => exact Nat.le_add_right _ _
      have hcons : form.rewritten (hit :: hits) (r :: rs) tail =
          hit.before ++ form.shown hit.body r ++ form.rewritten hits rs tail := by
        simp [Form.rewritten]
      rw [hcons, bytesOf_append, bytesOf_append, bytesOf_append]
      omega

/-- What a pad is resolved to, and how much a pass over a text can add to it. The text is taken
apart once, and so the bytes that are added are those of the pads that it had before, however many a
pad produces. -/
theorem Scope.pads_bounded (scope : Scope) :
    (∀ body text, (scope.resolve .pad body).1 = .ok text ↔ ∃ n chars, Pads body n chars ∧
      text = (List.replicate n chars).flatten) ∧
      ∀ s, ∃ hits tail, Decomposes .pad s hits tail ∧
        (∀ hits' tail', Decomposes .pad s hits' tail' → hits' = hits ∧ tail' = tail) ∧
        ∃ ev, (expand .pad (Scope.resolveM .pad) s).run scope = (ev, scope) ∧
          ev.value = Form.rewritten .pad hits (hits.map fun hit =>
              (scope.resolve .pad hit.body).1) tail ∧
          bytesOf ev.value ≤ bytesOf s + hits.length * 2 ^ 20 := by
  refine ⟨fun body text => resolvePad_eq_ok_iff, ?_⟩
  intro s
  obtain ⟨hits, tail, h⟩ := Decomposes.exists_of .pad s
  have hrun := run_expand h (calls_resolvePad scope (hits.map Hit.body))
  have hmap : (hits.map Hit.body).map resolvePad = hits.map fun hit =>
      resolvePad hit.body := List.map_map
  rw [hmap] at hrun
  refine ⟨hits, tail, h, fun _ _ => h.unique, _, hrun, rfl, ?_⟩
  rw [h.source_eq]
  apply bytesOf_rewritten_le
  intro r hr text hok
  obtain ⟨hit, -, rfl⟩ := List.mem_map.mp hr
  exact bytesOf_resolvePad_le hok

end LedgerBench
