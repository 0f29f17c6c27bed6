import ExprCompiler.Proofs.Json.Invariant
import ExprCompiler.Proofs.Service.Crash
import Mathlib.Data.List.Induction
import Mathlib.Data.List.TakeWhile

/-!
# Which bodies are requests

A body of no more than the bytes that are looked at is a request if it is one document with blanks
around it and the document describes one. The endpoint takes these bodies, and those in which a
closing bracket, and then anything at all, follows (`Handler.serve_post`).
-/

namespace ExprCompiler.Service

open Json (Blank Readable isBlank readFirst)

/-! ## Documents that describe a request -/

/-- The values that a field of a request takes. -/
inductive RequestField.Admits : RequestField → Json → Prop
  | nothing {f : RequestField} : Admits f .null
  | text {f : RequestField} {s : String} (hf : f ≠ .params) : Admits f (.string s)
  | parameters {fields : List (String × Json)} (h : Json.inRangeFields fields = true) :
      Admits .params (.object fields)

/-- The values that stand under the names of a field. -/
def RequestField.values (f : RequestField) (fields : List (String × Json)) : List Json :=
  (fields.filter fun p ↦ RequestField.ofName? p.1 == some f).map Prod.snd

namespace Request

/-- The last text among values, if there is one. -/
def lastText (values : List Json) : String := ((values.filterMap Json.string?).getLast?).getD ""

/-- The parameters of all objects behind the last value that is none. -/
def merged (values : List Json) : List (String × Json) :=
  (((values.reverse.takeWhile fun j ↦ j.object?.isSome).reverse).filterMap Json.object?).flatten

/-- The request that the fields of a document describe. -/
def described (fields : List (String × Json)) : Request where
  id := lastText (RequestField.id.values fields)
  tool := lastText (RequestField.tool.values fields)
  arguments := merged (RequestField.params.values fields)

/-- The documents that describe a request. -/
inductive Decodes : Json → Request → Prop
  | null : Decodes .null {}
  | object {fields : List (String × Json)}
      (h : ∀ p ∈ fields, ∃ f, RequestField.ofName? p.1 = some f ∧ f.Admits p.2) :
      Decodes (.object fields) (described fields)

theorem ofFields_append (r : Request) (fields more : List (String × Json)) :
    ofFields r (fields ++ more) = ofFields r fields >>= (ofFields · more) := by
  induction fields generalizing r with
  | nil => rfl
  | cons p fields ih =>
      obtain ⟨name, j⟩ := p
      rw [List.cons_append, ofFields, ofFields]
      cases RequestField.ofName? name with
      | none => rfl
      | some f => simp [ih, bind_assoc]

theorem ofFields_singleton {name : String} {f : RequestField}
    (hf : RequestField.ofName? name = some f) (r : Request) (j : Json) :
    ofFields r [(name, j)] = r.set f j := by
  rw [ofFields, hf]
  cases h : r.set f j <;> simp [h, ofFields]

/-- The values of a field are in the order of the fields. -/
theorem values_concat {name : String} {f g : RequestField}
    (hg : RequestField.ofName? name = some g) (fields : List (String × Json)) (j : Json) :
    f.values (fields ++ [(name, j)]) = f.values fields ++ if g = f then [j] else [] := by
  by_cases h : g = f <;> simp [RequestField.values, hg, h]

@[simp] theorem lastText_concat_string (values : List Json) (s : String) :
    lastText (values ++ [.string s]) = s := by
  simp [lastText, Json.string?]

@[simp] theorem lastText_concat_null (values : List Json) :
    lastText (values ++ [.null]) = lastText values := by
  simp [lastText, Json.string?]

@[simp] theorem merged_concat_object (values : List Json) (fields : List (String × Json)) :
    merged (values ++ [.object fields]) = merged values ++ fields := by
  simp [merged, Json.object?]

@[simp] theorem merged_concat_null (values : List Json) : merged (values ++ [.null]) = [] := by
  simp [merged, Json.object?]

/-- One more field changes the request that is described as setting it does. -/
theorem set_described {name : String} {f : RequestField} (hf : RequestField.ofName? name = some f)
    {fields : List (String × Json)} {j : Json} {r : Request} :
    (described fields).set f j = .ok r ↔ f.Admits j ∧ r = described (fields ++ [(name, j)]) := by
  constructor
  · intro h
    unfold set at h
    split at h
    · cases h
      exact ⟨.text (by decide), by simp [described, values_concat hf]⟩
    · cases h
      exact ⟨.nothing, by simp [described, values_concat hf]⟩
    · cases h
      exact ⟨.text (by decide), by simp [described, values_concat hf]⟩
    · cases h
      exact ⟨.nothing, by simp [described, values_concat hf]⟩
    · split at h
      · rename_i hrange
        cases h
        exact ⟨.parameters hrange, by simp [described, values_concat hf]⟩
      · cases h
    · cases h
      exact ⟨.nothing, by simp [described, values_concat hf]⟩
    · cases h
  · rintro ⟨hadmits, rfl⟩
    cases hadmits with
    | nothing => cases f <;> simp [set, described, values_concat hf]
    | text hparams =>
        cases f with
        | id => simp [set, described, values_concat hf]
        | tool => simp [set, described, values_concat hf]
        | params => exact absurd rfl hparams
    | parameters hrange => simp [set, hrange, described, values_concat hf]

/-- Fields are taken if each one is known and admits its value, and they make the request that they
describe. -/
theorem ofFields_eq_ok_iff {fields : List (String × Json)} {r : Request} :
    ofFields {} fields = .ok r ↔
      (∀ p ∈ fields, ∃ f, RequestField.ofName? p.1 = some f ∧ f.Admits p.2) ∧
        r = described fields := by
  -- From the end, because of several values under one name the last one counts.
  induction fields using List.reverseRecOn generalizing r with
  | nil =>
      constructor
      · rintro ⟨⟩
        exact ⟨List.forall_mem_nil _, rfl⟩
      · rintro ⟨-, rfl⟩
        rfl
  | append_singleton fields p ih =>
      obtain ⟨name, j⟩ := p
      rw [ofFields_append, Outcome.bind_eq_ok]
      simp only [ih, List.forall_mem_append, List.forall_mem_singleton]
      constructor
      · rintro ⟨_, ⟨hfields, rfl⟩, hset⟩
        cases hname : RequestField.ofName? name with
        | none => simp [ofFields, hname] at hset
        | some f =>
            rw [ofFields_singleton hname, set_described hname] at hset
            exact ⟨⟨hfields, f, rfl, hset.1⟩, hset.2⟩
      · rintro ⟨⟨hfields, f, hname, hadmits⟩, hr⟩
        refine ⟨described fields, ⟨hfields, rfl⟩, ?_⟩
        rw [ofFields_singleton hname]
        exact (set_described hname).2 ⟨hadmits, hr⟩

/-- A request is read if and only if the document decodes to it. -/
theorem ofJson_eq_ok_iff {j : Json} {r : Request} : ofJson j = .ok r ↔ Decodes j r := by
  constructor
  · intro h
    unfold ofJson at h
    split at h
    · cases h
      exact .null
    · obtain ⟨hfields, rfl⟩ := ofFields_eq_ok_iff.1 h
      exact .object hfields
    · cases h
  · rintro (_ | hfields)
    · rfl
    · exact ofFields_eq_ok_iff.2 ⟨hfields, rfl⟩

theorem Decodes.ne_number {j : Json} {r : Request} (h : Decodes j r) (text : String) :
    j ≠ .number text := by
  rintro rfl
  cases h

end Request

/-! ## Bodies -/

def byteSize (cs : List Char) : Nat := (cs.map Char.utf8Size).sum

theorem clipTo_eq {bytes : Nat} {cs : List Char} (h : byteSize cs ≤ bytes) (kept : List Char) :
    clipTo kept bytes cs = (kept.reverse ++ cs, false) := by
  induction cs generalizing kept bytes with
  | nil => simp [clipTo]
  | cons c cs ih =>
      rw [byteSize, List.map_cons, List.sum_cons] at h
      rw [clipTo, if_neg (by omega), ih (Nat.le_sub_of_add_le' h)]
      simp

theorem clip_eq {bytes : Nat} {cs : List Char} (h : byteSize cs ≤ bytes) :
    clip bytes cs = (cs, false) :=
  clipTo_eq h []

/-- A text that ends, but for blanks, or goes on with a closing bracket is not taken for more. -/
theorem isTrailing_eq_false_iff {rest : List Char} :
    isTrailing rest = false ↔ Blank rest ∨
      ∃ blanks c more, rest = blanks ++ c :: more ∧ Blank blanks ∧ (c = ']' ∨ c = '\x7d') := by
  have hsplit : rest.takeWhile isBlank ++ rest.dropWhile isBlank = rest :=
    List.takeWhile_append_dropWhile
  have hblanks : Blank (rest.takeWhile isBlank) := fun c ↦ List.mem_takeWhile_imp
  constructor
  · intro h
    unfold isTrailing at h
    split at h
    · rename_i hdrop
      rw [hdrop, List.append_nil] at hsplit
      exact .inl (hsplit ▸ hblanks)
    · rename_i c more hdrop
      refine .inr ⟨_, c, more, (hdrop ▸ hsplit).symm, hblanks, ?_⟩
      by_cases hc : c = ']'
      · exact .inl hc
      · exact .inr (by simpa [hc] using h)
  · rintro (h | ⟨blanks, c, more, rfl, h, hc⟩)
    · rw [isTrailing, List.dropWhile_eq_nil_iff.2 h]
    · rw [isTrailing, List.dropWhile_append_of_pos h]
      rcases hc with rfl | rfl <;> rfl

/-- Bodies that are one document, with blanks around it, and the request it describes. -/
inductive HoldsRequest : List Char → Request → Prop
  | mk {j : Json} {cs blanks : List Char} {r : Request} (h : Readable j cs)
      (hr : Request.Decodes j r) (hblanks : Blank blanks) : HoldsRequest (cs ++ blanks) r

/-- A body within the limit is read if its first document decodes and what follows does not count as
trailing. -/
theorem readBody_eq_ok_iff {body : List Char} (hsize : byteSize body ≤ maxBodyBytes) {r : Request} :
    readBody body = .ok r ↔ ∃ j rest, readFirst body = .complete j rest ∧
      Request.Decodes j r ∧ isTrailing rest = false := by
  simp only [readBody, clip_eq hsize]
  cases readFirst body with
  | malformed => simp
  | unfinished => simp
  | complete j rest =>
      simp only [Outcome.bind_eq_ok, Request.ofJson_eq_ok_iff]
      by_cases htrailing : isTrailing rest = true <;> simp [htrailing]

/-- A request is read where the grammar has one, or has one in front of a closing bracket. -/
theorem readBody_eq_ok_iff_holdsRequest {body : List Char} (hsize : byteSize body ≤ maxBodyBytes)
    {r : Request} : readBody body = .ok r ↔ HoldsRequest body r ∨
      ∃ front c more, body = front ++ c :: more ∧ (c = ']' ∨ c = '\x7d') ∧
        HoldsRequest front r := by
  rw [readBody_eq_ok_iff hsize]
  constructor
  · rintro ⟨j, rest, hfirst, hr, hrest⟩
    obtain ⟨cs, rfl, h⟩ := (Json.readFirst_eq_complete_iff hr.ne_number).1 hfirst
    rcases isTrailing_eq_false_iff.1 hrest with hblanks | ⟨blanks, c, more, rfl, hblanks, hc⟩
    · exact .inl (.mk h hr hblanks)
    · exact .inr ⟨cs ++ blanks, c, more, by simp, hc, .mk h hr hblanks⟩
  · rintro (hbody | ⟨front, c, more, rfl, hc, hfront⟩)
    · obtain ⟨h, hr, hblanks⟩ := hbody
      exact ⟨_, _, h.readFirst_eq hr.ne_number _, hr, isTrailing_eq_false_iff.2 (.inl hblanks)⟩
    · obtain ⟨h, hr, hblanks⟩ := hfront
      refine ⟨_, _, ?_, hr, isTrailing_eq_false_iff.2 (.inr ⟨_, c, more, rfl, hblanks, hc⟩)⟩
      rw [List.append_assoc]
      exact h.readFirst_eq hr.ne_number _

/-- A posted body of no more than the bytes that are looked at is handled if it is a request, or if
a closing bracket follows one, and is refused otherwise. -/
theorem Handler.serve_post (h : Handler) (freshId : String) {body : List Char}
    (hsize : byteSize body ≤ maxBodyBytes) :
    (∀ r, readBody body = .ok r ↔ HoldsRequest body r ∨
      ∃ front c more, body = front ++ c :: more ∧ (c = ']' ∨ c = '\x7d') ∧ HoldsRequest front r) ∧
    (∀ r, readBody body = .ok r →
      h.serve freshId "POST" body = Reply.answered <$> h.handle freshId r) ∧
    ((∀ r, readBody body ≠ .ok r) →
      ∃ reply, h.serve freshId "POST" body = pure reply ∧ reply.status = 400) := by
  refine ⟨fun r ↦ readBody_eq_ok_iff_holdsRequest hsize, fun r hr ↦ ?_, fun hnone ↦ ?_⟩
  · exact serve_of_readBody h freshId hr
  · cases hbody : readBody body with
    | ok r => exact absurd hbody (hnone r)
    | error why => exact ⟨.refused why, by simp [serve, hbody], rfl⟩

/-- The shortest way to ask for the tables. -/
def tablesBody : List Char := "\x7b\"tool\":\"tables\"\x7d".toList

theorem Handler.serve_post_tables :
    byteSize (tablesBody ++ [']']) ≤ maxBodyBytes ∧
    readBody (tablesBody ++ [']']) = .ok ⟨"", "tables", []⟩ ∧
    Handler.serve {} "a" "POST" (tablesBody ++ [']']) =
      Reply.answered <$> Handler.handle {} "a" ⟨"", "tables", []⟩ := by
  have hsize : byteSize (tablesBody ++ [']']) ≤ maxBodyBytes := by decide
  exact ⟨hsize, rfl, (Handler.serve_post {} "a" hsize).2.1 _ rfl⟩

/-- A bracket that closes nothing does not keep a body from being handled. -/
theorem exists_readBody_of_not_holdsRequest : byteSize (tablesBody ++ [']']) ≤ maxBodyBytes ∧
    (∃ r, readBody (tablesBody ++ [']']) = .ok r) ∧
    ¬∃ r, HoldsRequest (tablesBody ++ [']']) r := by
  refine ⟨by decide, ⟨_, rfl⟩, ?_⟩
  rintro ⟨r, h⟩
  generalize hbody : tablesBody ++ [']'] = body at h
  obtain @⟨j, cs, blanks, _, h, hr, hblanks⟩ := h
  have hfirst := h.readFirst_eq hr.ne_number blanks
  rw [← hbody] at hfirst
  obtain ⟨-, rfl⟩ : _ ∧ [']'] = blanks := Json.Reading.complete.inj hfirst
  exact absurd (hblanks ']' (by simp)) (by decide)

end ExprCompiler.Service
