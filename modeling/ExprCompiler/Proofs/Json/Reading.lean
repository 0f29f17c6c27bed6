import ExprCompiler.Proofs.Json.Grammar
import ExprCompiler.Proofs.Numeral.Digits

/-!
# Reading follows the grammar

The reader sees one character at a time, so what it does with a document's text is told by where it
stands after the last character. Main statement: behind every text of a document it has the
document, or has refused it for being nested too deep (`Machine.reads`).
-/

namespace ExprCompiler.Json

mutual

/-- How deep a document's containers are nested. -/
def depth : Json → Nat
  | .array items => depthOfItems items + 1
  | .object fields => depthOfFields fields + 1
  | _ => 0

def depthOfItems : List Json → Nat
  | [] => 0
  | j :: js => max (depth j) (depthOfItems js)

def depthOfFields : List (String × Json) → Nat
  | [] => 0
  | (_, j) :: fs => max (depth j) (depthOfFields fs)

end

/-- Items in a row are as deep as the deeper part of the row. -/
theorem depthOfItems_append (js ks : List Json) :
    depthOfItems (js ++ ks) = max (depthOfItems js) (depthOfItems ks) := by
  induction js with
  | nil => simp [depthOfItems]
  | cons j js ih => rw [List.cons_append, depthOfItems, ih, depthOfItems, Nat.max_assoc]

/-- Fields in a row are as deep as the deeper part of the row. -/
theorem depthOfFields_append (fs gs : List (String × Json)) :
    depthOfFields (fs ++ gs) = max (depthOfFields fs) (depthOfFields gs) := by
  induction fs with
  | nil => simp [depthOfFields]
  | cons f fs ih => rw [List.cons_append, depthOfFields, ih, depthOfFields, Nat.max_assoc]

theorem isBlank_iff {c : Char} : isBlank c = true ↔ c = ' ' ∨ c = '\t' ∨ c = '\n' ∨ c = '\r' := by
  have hreturn : c.toNat = 0x0d ↔ c = '\r' := Char.toNat_inj (d := '\r')
  simp [isBlank, hreturn, or_assoc]

/-- Whether what follows a number leaves it as it is: nothing more, a blank, a comma or a closing
bracket. -/
def Ends (rest : List Char) : Prop :=
  ∀ c ∈ rest.head?, isBlank c = true ∨ c = ',' ∨ c = ']' ∨ c = '\x7d'

theorem ends_cons {c : Char} (h : c = ',' ∨ c = ']' ∨ c = '\x7d') (rest : List Char) :
    Ends (c :: rest) := by
  rintro _ ⟨⟩
  exact .inr h

/-- Blanks do not change what may follow a value. -/
theorem Blank.ends_append {cs rest : List Char} (h : Blank cs) (hrest : Ends rest) :
    Ends (cs ++ rest) := by
  cases cs with
  | nil => exact hrest
  | cons c cs =>
      rintro _ ⟨⟩
      exact .inl (h c List.mem_cons_self)

namespace Machine

variable {stack : List Frame} {d : Nat} {rest : List Char}

/-! ## Where the machine goes with a value -/

/-- How the machine reads on once it has a value. -/
def resume (stack : List Frame) (depth : Nat) (j : Json) (rest : List Char) : Reading :=
  match accept ⟨stack, .after, depth⟩ j with
  | .inl m => m.run rest
  | .inr j => .complete j rest

/-- Where a value goes does not depend on what was expected. -/
theorem accept_eq (mode : Mode) (j : Json) :
    accept ⟨stack, mode, d⟩ j = accept ⟨stack, .after, d⟩ j := by
  cases stack with
  | nil => rfl
  | cons frame stack => cases frame <;> rfl

/-- A character that completes a value goes on in the container around it. -/
theorem run_cons_of_closedBy {m : Machine} {mode : Mode} {c : Char} {j : Json}
    (h : m.step c = closedBy ⟨stack, mode, d⟩ j) :
    m.run (c :: rest) = resume stack d j rest := by
  rw [run, h, closedBy, accept_eq, resume]
  cases accept ⟨stack, .after, d⟩ j <;> rfl

/-- One step of the machine, if the document goes on. -/
theorem run_cons_of_next {m m' : Machine} {c : Char} (h : m.step c = .next m') :
    m.run (c :: rest) = m'.run rest := by
  rw [run, h]

/-! ## Blanks -/

/-- Whether blanks leave the machine where it is. -/
def Skips (m : Machine) : Prop := ∀ c, isBlank c = true → m.step c = .next m

theorem skips_value {closable : Bool} : Skips ⟨stack, .value closable, d⟩ := by
  intro c hc
  simp [step, stepValue, hc]

theorem skips_name {closable : Bool} : Skips ⟨stack, .name closable, d⟩ := by
  intro c hc
  simp [step, stepName, hc]

theorem skips_colon : Skips ⟨stack, .colon, d⟩ := by
  intro c hc
  simp [step, hc]

theorem skips_after : Skips ⟨stack, .after, d⟩ := by
  intro c hc
  simp [step, stepAfter, hc]

/-- Blanks are skipped wherever the machine skips one. -/
theorem Skips.run_append {m : Machine} (hm : m.Skips) {cs : List Char} (hcs : Blank cs) :
    m.run (cs ++ rest) = m.run rest := by
  induction cs with
  | nil => rfl
  | cons c cs ih =>
      obtain ⟨hc, hcs⟩ := List.forall_mem_cons.1 hcs
      rw [List.cons_append, run_cons_of_next (hm c hc), ih hcs]

/-- Inside a container blanks behind a value are passed over. -/
theorem resume_append {frame : Frame} {j : Json} {cs : List Char} (hcs : Blank cs) :
    resume (frame :: stack) d j (cs ++ rest) = resume (frame :: stack) d j rest := by
  cases frame <;> exact skips_after.run_append hcs

/-! ## Strings -/

/-- Hexadecimal digits make up a code unit. -/
theorem run_unit {isName : Bool} {units : List Nat} {cs : List Char} {count n unit : Nat}
    (hcs : cs ≠ []) (hcount : count + cs.length = 4) (h : hexValue? n cs = some unit) :
    run ⟨stack, .unit isName units count n, d⟩ (cs ++ rest) =
      run ⟨stack, .text isName (unit :: units), d⟩ rest := by
  induction cs generalizing count n with
  | nil => exact absurd rfl hcs
  | cons c cs ih =>
      obtain ⟨digit, hdigit, h⟩ := Option.bind_eq_some_iff.1 h
      rw [List.length_cons] at hcount
      cases cs with
      | nil =>
          obtain rfl : count = 3 := by simpa using hcount
          obtain rfl := Option.some.inj h
          exact run_cons_of_next (by simp [step, stepUnit, hdigit])
      | cons c' cs =>
          have hlast : count ≠ 3 := by
            rw [List.length_cons] at hcount
            omega
          have hstep : step ⟨stack, .unit isName units count n, d⟩ c =
              .next ⟨stack, .unit isName units (count + 1) (n * 16 + digit), d⟩ := by
            simp [step, stepUnit, hdigit, hlast]
          rw [List.cons_append, run_cons_of_next hstep]
          exact ih (by simp) (by omega) h

/-- One unit of a string is read into the string. -/
theorem run_spellsUnit {isName : Bool} {units : List Nat} {cs : List Char} {unit : Nat}
    (h : SpellsUnit unit cs) :
    run ⟨stack, .text isName units, d⟩ (cs ++ rest) =
      run ⟨stack, .text isName (unit :: units), d⟩ rest := by
  cases h with
  | plain hquote hslash hblank =>
      refine run_cons_of_next ?_
      simp [step, stepText, Nat.not_lt.2 hblank, hslash, hquote]
  | short h =>
      simp only [shortEscapes, List.mem_cons, Prod.mk.injEq, List.not_mem_nil, or_false] at h
      rcases h with ⟨rfl, rfl⟩ | ⟨rfl, rfl⟩ | ⟨rfl, rfl⟩ | ⟨rfl, rfl⟩ | ⟨rfl, rfl⟩ | ⟨rfl, rfl⟩ |
        ⟨rfl, rfl⟩ | ⟨rfl, rfl⟩ <;> rfl
  | long hlength h =>
      refine run_unit ?_ (by omega) h
      rintro rfl
      cases hlength

/-- The units of a string are read one after the other. -/
theorem run_spellsUnits {isName : Bool} {units done : List Nat} {cs : List Char}
    (h : SpellsUnits units cs) :
    run ⟨stack, .text isName done, d⟩ (cs ++ rest) =
      run ⟨stack, .text isName (units.reverse ++ done), d⟩ rest := by
  induction h generalizing done with
  | nil => rfl
  | cons h _ ih =>
      rw [List.append_assoc, run_spellsUnit h, ih, List.reverse_cons, List.append_assoc]
      rfl

/-- A string is read where a value is expected. -/
theorem run_string {closable : Bool} {s : String} {cs : List Char} (h : SpellsString s cs) :
    run ⟨stack, .value closable, d⟩ ('"' :: (cs ++ '"' :: rest)) =
      resume stack d (.string s) rest := by
  obtain @⟨units, _, h⟩ := h
  have hopen : step ⟨stack, .value closable, d⟩ '"' = .next ⟨stack, .text false [], d⟩ := rfl
  have hclose : step ⟨stack, .text false units.reverse, d⟩ '"' =
      closedBy ⟨stack, .text false units.reverse, d⟩
        (.string (String.ofList (decodeUnits units))) := by
    simp [step, stepText]
  rw [run_cons_of_next hopen, run_spellsUnits h, List.append_nil, run_cons_of_closedBy hclose]

/-- The name of a field is read where a name is expected. -/
theorem run_name {closable : Bool} {done : List (String × Json)} {old s : String} {cs : List Char}
    (h : SpellsString s cs) :
    run ⟨.fields done old :: stack, .name closable, d⟩ ('"' :: (cs ++ '"' :: rest)) =
      run ⟨.fields done s :: stack, .colon, d⟩ rest := by
  obtain @⟨units, _, h⟩ := h
  have hopen : step ⟨.fields done old :: stack, .name closable, d⟩ '"' =
      .next ⟨.fields done old :: stack, .text true [], d⟩ := rfl
  have hclose : step ⟨.fields done old :: stack, .text true units.reverse, d⟩ '"' =
      .next ⟨.fields done (String.ofList (decodeUnits units)) :: stack, .colon, d⟩ := by
    simp [step, stepText]
  rw [run_cons_of_next hopen, run_spellsUnits h, List.append_nil, run_cons_of_next hclose]

/-! ## Numbers -/

/-- A number does not go on with what may follow a value. -/
theorem next?_eq_none {p : NumberPart} {c : Char}
    (h : isBlank c = true ∨ c = ',' ∨ c = ']' ∨ c = '\x7d') : p.next? c = none := by
  rw [isBlank_iff] at h
  rcases h with (rfl | rfl | rfl | rfl) | rfl | rfl | rfl <;> cases p <;> decide

/-- A number ends where it can, and the character behind it is looked at as one after a value. -/
theorem run_number_end {p : NumberPart} (digits : List Char) (hp : p.final = true)
    (hrest : Ends rest) :
    run ⟨stack, .number p digits, d⟩ rest = resume stack d (numberOf digits) rest := by
  cases rest with
  | nil =>
      cases stack with
      | nil => simp [run, finish?, hp, resume, accept]
      | cons frame stack => cases frame <;> rfl
  | cons c rest =>
      have hnext := next?_eq_none (p := p) (hrest c rfl)
      simp only [run, step, stepNumber, hnext, hp, accept_eq, resume]
      cases stack with
      | nil => rfl
      | cons frame stack => cases frame <;> rfl

/-- The characters of a number are read up to where it ends. -/
theorem run_number {p q : NumberPart} {cs : List Char} (digits : List Char)
    (h : p.after? cs = some q) (hq : q.final = true) (hrest : Ends rest) :
    run ⟨stack, .number p digits, d⟩ (cs ++ rest) =
      resume stack d (numberOf (cs.reverse ++ digits)) rest := by
  induction cs generalizing p digits with
  | nil =>
      obtain rfl := Option.some.inj h
      exact run_number_end digits hq hrest
  | cons c cs ih =>
      obtain ⟨p', hp', h⟩ := Option.bind_eq_some_iff.1 h
      have hstep : step ⟨stack, .number p digits, d⟩ c =
          .next ⟨stack, .number p' (c :: digits), d⟩ := by
        simp [step, stepNumber, hp']
      rw [List.cons_append, run_cons_of_next hstep, ih (c :: digits) h, List.reverse_cons,
        List.append_assoc]
      rfl

/-- The first character of a number opens it. -/
theorem step_first {c : Char} {p : NumberPart} (closable : Bool)
    (h : NumberPart.first? c = some p) :
    step ⟨stack, .value closable, d⟩ c = .next ⟨stack, .number p [c], d⟩ := by
  unfold NumberPart.first? at h
  split at h
  · rename_i hc
    cases h
    rw [beq_iff_eq.1 hc]
    rfl
  · split at h
    · rename_i hc
      cases h
      rw [beq_iff_eq.1 hc]
      rfl
    · split at h
      · rename_i hminus hzero hdigit
        cases h
        obtain ⟨d, hd, rfl⟩ := Numeral.exists_digitChar hdigit
        interval_cases d <;> first | rfl | exact absurd rfl hzero
      · cases h

/-- A number is read where a value is expected. -/
theorem run_numeral (closable : Bool) {cs : List Char} (h : IsNumeral cs) (hrest : Ends rest) :
    run ⟨stack, .value closable, d⟩ (cs ++ rest) =
      resume stack d (.number (String.ofList cs)) rest := by
  have htext := isNumberText_iff.2 h
  cases cs with
  | nil => cases htext
  | cons c cs =>
      obtain ⟨q, hq, hfinal⟩ := (Option.any_eq_true _ _).1 htext
      obtain ⟨p, hp, hq⟩ := Option.bind_eq_some_iff.1 hq
      rw [List.cons_append, run_cons_of_next (step_first closable hp),
        run_number [c] hq hfinal hrest, numberOf]
      simp

/-! ## Documents -/

/-- Two limits on one sum are the limit on the greater of them. -/
theorem ite_add_max (r s : Reading) (n a b c : Nat) :
    (if n + a ≤ c then if n + b ≤ c then r else s else s) =
      if n + max a b ≤ c then r else s := by
  split_ifs <;> first | rfl | omega

/-- A container is entered if it is not too deep, whatever is in it. -/
theorem run_opened {mode inner : Mode} {k : Nat} {c : Char} {frame : Frame} {r : Reading}
    (h : step ⟨stack, mode, d⟩ c = opened ⟨stack, mode, d⟩ frame inner)
    (hinner : d + 1 ≤ maxDepth → run ⟨frame :: stack, inner, d + 1⟩ rest =
      if d + 1 + k ≤ maxDepth then r else .malformed) :
    run ⟨stack, mode, d⟩ (c :: rest) = if d + (k + 1) ≤ maxDepth then r else .malformed := by
  rw [run, h, opened, Nat.add_comm k, ← Nat.add_assoc]
  by_cases hd : d < maxDepth
  · simp only [hd, if_true]
    exact hinner hd
  · simp only [hd, if_false]
    -- Whatever is in it, the container itself is already too deep.
    rw [if_neg (fun hle ↦ hd (Nat.le_trans (Nat.le_add_right _ _) hle))]

/-- Where the machine stands behind a document's text: it has the document's value, unless the
document goes deeper than it may. -/
def Reads (j : Json) : Prop :=
  ∀ {cs : List Char}, Spells j cs → ∀ {stack : List Frame} {d : Nat} {rest : List Char}
    (closable : Bool), d ≤ maxDepth → Ends rest →
      run ⟨stack, .value closable, d⟩ (cs ++ rest) =
        if d + j.depth ≤ maxDepth then resume stack d j rest else .malformed

theorem reads_null : Reads .null := by
  rintro _ ⟨⟩ stack d rest closable hd -
  have hword : run ⟨stack, .value closable, d⟩ (['n', 'u', 'l', 'l'] ++ rest) =
      run ⟨stack, .word ['l'] .null, d⟩ ('l' :: rest) := rfl
  rw [hword, run_cons_of_closedBy rfl]
  exact (if_pos hd).symm

theorem reads_bool (b : Bool) : Reads (.bool b) := by
  rintro _ (_ | _) stack d rest closable hd -
  · have hword : run ⟨stack, .value closable, d⟩ (['t', 'r', 'u', 'e'] ++ rest) =
        run ⟨stack, .word ['e'] (.bool true), d⟩ ('e' :: rest) := rfl
    rw [hword, run_cons_of_closedBy rfl]
    exact (if_pos hd).symm
  · have hword : run ⟨stack, .value closable, d⟩ (['f', 'a', 'l', 's', 'e'] ++ rest) =
        run ⟨stack, .word ['e'] (.bool false), d⟩ ('e' :: rest) := rfl
    rw [hword, run_cons_of_closedBy rfl]
    exact (if_pos hd).symm

/-- Numbers are read, whatever follows. -/
theorem reads_number (text : String) : Reads (.number text) := by
  intro _ hcs stack d rest closable hd hrest
  cases hcs with
  | number h => exact (run_numeral closable h hrest).trans (if_pos hd).symm

/-- Strings are read, whatever follows. -/
theorem reads_string (s : String) : Reads (.string s) := by
  intro _ hcs stack d rest closable hd _
  cases hcs with
  | string h =>
      rw [List.cons_append, List.append_assoc]
      exact (run_string h).trans (if_pos hd).symm

/-- An item of an array, with blanks around it, is read into the array unless it is nested too deep.
-/
theorem Reads.run_item {j : Json} (hj : Reads j) {frame : Frame} {cs : List Char} (closable : Bool)
    (h : SpellsItem j cs) (hd : d ≤ maxDepth) (hrest : Ends rest) :
    run ⟨frame :: stack, .value closable, d⟩ (cs ++ rest) =
      if d + j.depth ≤ maxDepth then resume (frame :: stack) d j rest else .malformed := by
  obtain ⟨hbefore, h, hafter⟩ := h
  rw [List.append_assoc, skips_value.run_append hbefore, List.append_assoc,
    hj h closable hd (hafter.ends_append hrest), resume_append hafter]

/-- The items of an array are read behind those that are done. -/
theorem run_items {js : List Json} (hjs : ∀ j ∈ js, Reads j) {cs : List Char} (done : List Json)
    {closable : Bool} (h : Separated SpellsItem js cs) (hne : js ≠ [] ∨ closable = true)
    (hd : d + 1 ≤ maxDepth) :
    run ⟨.items done :: stack, .value closable, d + 1⟩ (cs ++ ']' :: rest) =
      if d + 1 + depthOfItems js ≤ maxDepth then resume stack d (.array (done.reverse ++ js)) rest
      else .malformed := by
  induction js generalizing cs done closable with
  | nil =>
      obtain ⟨hcs⟩ := h
      obtain rfl : closable = true := hne.resolve_left (fun h ↦ h rfl)
      rw [skips_value.run_append hcs, depthOfItems, Nat.add_zero, if_pos hd, List.append_nil]
      exact run_cons_of_closedBy rfl
  | cons j js ih =>
      obtain ⟨hj, hjs⟩ := List.forall_mem_cons.1 hjs
      cases h with
      | one h =>
          have hclose : resume (.items done :: stack) (d + 1) j (']' :: rest) =
              resume stack d (.array (j :: done).reverse) rest := run_cons_of_closedBy rfl
          rw [hj.run_item closable h hd (ends_cons (by simp) rest), hclose, depthOfItems,
            depthOfItems, Nat.max_zero, List.reverse_cons]
      | @more _ _ js _ ds h hs =>
          have hcomma : resume (.items done :: stack) (d + 1) j (',' :: (ds ++ ']' :: rest)) =
              run ⟨.items (j :: done) :: stack, .value false, d + 1⟩ (ds ++ ']' :: rest) := rfl
          rw [List.append_assoc, List.cons_append,
            hj.run_item closable h hd (ends_cons (by simp) _), hcomma,
            ih hjs (j :: done) hs (.inl (by simp)), ite_add_max, ← depthOfItems,
            List.reverse_cons, List.append_assoc]
          rfl

/-- A field of an object, with blanks around it, is read into the object unless it is nested too
deep. -/
theorem Reads.run_field {name : String} {j : Json} (hj : Reads j) {done : List (String × Json)}
    {old : String} {cs : List Char} (closable : Bool) (h : SpellsField (name, j) cs)
    (hd : d ≤ maxDepth) (hrest : Ends rest) :
    run ⟨.fields done old :: stack, .name closable, d⟩ (cs ++ rest) =
      if d + j.depth ≤ maxDepth then resume (.fields done name :: stack) d j rest
      else .malformed := by
  obtain @⟨_, _, before, _, after, ds, hbefore, hname, hafter, h⟩ := h
  have hcolon : run ⟨.fields done name :: stack, .colon, d⟩ (':' :: (ds ++ rest)) =
      run ⟨.fields done name :: stack, .value false, d⟩ (ds ++ rest) := rfl
  rw [List.append_assoc, skips_name.run_append hbefore, List.cons_append, List.append_assoc,
    List.cons_append, run_name hname, List.append_assoc, skips_colon.run_append hafter,
    List.cons_append, hcolon, hj.run_item false h hd hrest]

/-- The fields of an object are read behind those that are done. -/
theorem run_fields {fs : List (String × Json)} (hfs : ∀ f ∈ fs, Reads f.2) {cs : List Char}
    (done : List (String × Json)) {closable : Bool} (h : Separated SpellsField fs cs)
    (hne : fs ≠ [] ∨ closable = true) (hd : d + 1 ≤ maxDepth) :
    run ⟨.fields done "" :: stack, .name closable, d + 1⟩ (cs ++ '\x7d' :: rest) =
      if d + 1 + depthOfFields fs ≤ maxDepth then resume stack d (.object (done.reverse ++ fs)) rest
      else .malformed := by
  induction fs generalizing cs done closable with
  | nil =>
      obtain ⟨hcs⟩ := h
      obtain rfl : closable = true := hne.resolve_left (fun h ↦ h rfl)
      rw [skips_name.run_append hcs, depthOfFields, Nat.add_zero, if_pos hd, List.append_nil]
      exact run_cons_of_closedBy rfl
  | cons f fs ih =>
      obtain ⟨name, j⟩ := f
      obtain ⟨hj, hfs⟩ := List.forall_mem_cons.1 hfs
      cases h with
      | one h =>
          have hclose : resume (.fields done name :: stack) (d + 1) j ('\x7d' :: rest) =
              resume stack d (.object ((name, j) :: done).reverse) rest := run_cons_of_closedBy rfl
          rw [hj.run_field closable h hd (ends_cons (by simp) rest), hclose, depthOfFields,
            depthOfFields, Nat.max_zero, List.reverse_cons]
      | @more _ _ fs _ ds h hs =>
          have hcomma : resume (.fields done name :: stack) (d + 1) j
              (',' :: (ds ++ '\x7d' :: rest)) =
                run ⟨.fields ((name, j) :: done) "" :: stack, .name false, d + 1⟩
                  (ds ++ '\x7d' :: rest) := rfl
          rw [List.append_assoc, List.cons_append,
            hj.run_field closable h hd (ends_cons (by simp) _), hcomma,
            ih hfs ((name, j) :: done) hs (.inl (by simp)), ite_add_max, ← depthOfFields,
            List.reverse_cons, List.append_assoc]
          rfl

/-- An array is read if its items are. -/
theorem reads_array {items : List Json} (hitems : ∀ j ∈ items, Reads j) :
    Reads (.array items) := by
  intro _ hcs stack d rest closable _ _
  cases hcs with
  | array h =>
      rw [List.cons_append, List.append_assoc, Json.depth]
      exact run_opened rfl fun hd ↦ run_items hitems [] h (.inr rfl) hd

/-- An object is read if its fields are. -/
theorem reads_object {fields : List (String × Json)} (hfields : ∀ f ∈ fields, Reads f.2) :
    Reads (.object fields) := by
  intro _ hcs stack d rest closable _ _
  cases hcs with
  | object h =>
      rw [List.cons_append, List.append_assoc, Json.depth]
      exact run_opened rfl fun hd ↦ run_fields hfields [] h (.inr rfl) hd

mutual

/-- Every document is read from every text of it. -/
theorem reads : ∀ j : Json, Reads j
  | .null => reads_null
  | .bool b => reads_bool b
  | .number text => reads_number text
  | .string s => reads_string s
  | .array items => reads_array (reads_of_mem items)
  | .object fields => reads_object (reads_of_mem_fields fields)

theorem reads_of_mem : ∀ js : List Json, ∀ j ∈ js, Reads j
  | [] => List.forall_mem_nil _
  | j :: js => List.forall_mem_cons.2 ⟨reads j, reads_of_mem js⟩

theorem reads_of_mem_fields : ∀ fs : List (String × Json), ∀ f ∈ fs, Reads f.2
  | [] => List.forall_mem_nil _
  | (_, j) :: fs => List.forall_mem_cons.2 ⟨reads j, reads_of_mem_fields fs⟩

end

/-- A document that is no number ends where it ends, whatever follows it. -/
theorem run_append {m : Machine} {cs rest : List Char} {j : Json}
    (h : m.run cs = .complete j rest) (hj : ∀ text, j ≠ .number text) (more : List Char) :
    m.run (cs ++ more) = .complete j (rest ++ more) := by
  induction cs generalizing m with
  | nil =>
      -- Only a number ends with its text.
      rw [run] at h
      unfold finish? at h
      split at h
      · rename_i hfinish
        split at hfinish
        · split at hfinish
          · cases hfinish
            cases h
            exact absurd rfl (hj _)
          · cases hfinish
        · cases hfinish
      · cases h
  | cons c cs ih =>
      rw [List.cons_append]
      rw [run] at h ⊢
      cases hstep : m.step c with
      | next m' =>
          rw [hstep] at h
          exact ih h
      | closed j' =>
          rw [hstep] at h
          cases h
          rfl
      | ended j' =>
          rw [hstep] at h
          cases h
          rfl
      | fail =>
          rw [hstep] at h
          cases h

end Machine

end ExprCompiler.Json
