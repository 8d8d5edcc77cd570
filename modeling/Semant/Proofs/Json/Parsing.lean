import Semant.Proofs.Json.Grammar

/-!
# Reading back

A value is read back from its lexemes whatever follows them (`Lexed.readValue`), as long as its
containers are not nested too deep and its numbers are not too large. Skimming passes over the same
lexemes, and minds neither (`Lexed.skim`).

A text is never a spelling of two values (`Spells.unique`). This does not follow from reading, since it
holds of values that cannot be read as well.
-/

set_option autoImplicit false

namespace Semant.Json

/-! ## Measures of a value -/

mutual

/-- How deep containers are nested in a value. -/
def depth : Json → Nat
  | .null | .bool _ | .number _ | .string _ => 0
  | .array elements => elementsDepth elements + 1
  | .object fields => fieldsDepth fields + 1

def elementsDepth : List Json → Nat
  | [] => 0
  | value :: rest => max value.depth (elementsDepth rest)

def fieldsDepth : List (String × Json) → Nat
  | [] => 0
  | (_, value) :: rest => max value.depth (fieldsDepth rest)

end

mutual

/-- The numbers in a value. -/
def numerals : Json → List Numeral
  | .null | .bool _ | .string _ => []
  | .number n => [n]
  | .array elements => elementNumerals elements
  | .object fields => fieldNumerals fields

def elementNumerals : List Json → List Numeral
  | [] => []
  | value :: rest => value.numerals ++ elementNumerals rest

def fieldNumerals : List (String × Json) → List Numeral
  | [] => []
  | (_, value) :: rest => value.numerals ++ fieldNumerals rest

end

/-- A value without what is in its containers. -/
def shell : Json → Json
  | .array _ => .array []
  | .object _ => .object []
  | v => v

/-- What can be told of a value from where it begins. -/
def Lexeme.shell? : Lexeme → Option Json
  | .null => some .null
  | .bool b => some (.bool b)
  | .number n => some (.number n)
  | .string parts stop => (readString parts stop).toOption.map .string
  | .openArray => some (.array [])
  | .openObject => some (.object [])
  | .closeArray | .closeObject | .colon | .comma | .broken _ _ => none

theorem Lexed.opening {v : Json} {ls : List Lexeme} (h : v.Lexed ls) :
    ∃ l more, ls = l :: more ∧ l.shell? = some v.shell := by
  cases v with
  | null => exact ⟨_, _, h, rfl⟩
  | bool b => exact ⟨_, _, h, rfl⟩
  | number n => exact ⟨_, _, h.2, rfl⟩
  | string s =>
    obtain ⟨_, ⟨parts, hparts, rfl⟩, rfl⟩ := h
    refine ⟨_, _, rfl, ?_⟩
    rw [Lexeme.shell?, hparts]
    rfl
  | array elements =>
    cases elements with
    | nil => exact ⟨_, _, h, rfl⟩
    | cons =>
      obtain ⟨_, _, _, _, rfl⟩ := h
      exact ⟨_, _, rfl, rfl⟩
  | object fields =>
    cases fields with
    | nil => exact ⟨_, _, h, rfl⟩
    | cons =>
      obtain ⟨_, _, _, _, rfl⟩ := h
      exact ⟨_, _, rfl, rfl⟩

theorem Lexed.head_ne_close {v : Json} {ls : List Lexeme} (h : v.Lexed ls) (rest : List Lexeme) :
    (ls ++ rest).head? ≠ some .closeArray := by
  obtain ⟨l, more, rfl, hl⟩ := h.opening
  intro heq
  obtain rfl : l = .closeArray := Option.some.inj heq
  contradiction

/-! ## Reading -/

section Steps

variable {fuel depth : Nat} {ls ms rest : List Lexeme} {v : Json}

theorem readValue_array {values : List Json} (hclose : ls.head? ≠ some .closeArray)
    (hone : readValue fuel depth ls = .ok (v, ms))
    (hmany : readElements fuel depth [v] ms = .ok (values, rest)) :
    readValue (fuel + 1) (depth + 1) (.openArray :: ls) = .ok (.array values, rest) := by
  rw [readValue, hone]
  · show (readElements fuel depth [v] ms >>= fun r => pure (Json.array r.1, r.2)) = _
    rw [hmany]
    rfl
  · rintro more rfl
    exact hclose rfl

theorem readValue_object {key : String} {fields : List (String × Json)} {ks : List Lexeme}
    (hkey : readKey ls = .ok (key, .colon :: ks)) (hone : readValue fuel depth ks = .ok (v, ms))
    (hmany : readFields fuel depth [(key, v)] ms = .ok (fields, rest)) :
    readValue (fuel + 1) (depth + 1) (.openObject :: ls) = .ok (.object fields, rest) := by
  rw [readValue, hkey]
  · show (readValue fuel depth ks >>= fun r => readFields fuel depth [(key, r.1)] r.2 >>= fun r =>
      pure (Json.object r.1, r.2)) = _
    rw [hone]
    show (readFields fuel depth [(key, v)] ms >>= fun r => pure (Json.object r.1, r.2)) = _
    rw [hmany]
    rfl
  · rintro more rfl
    contradiction

theorem readElements_comma {done : List Json} (hone : readValue fuel depth ls = .ok (v, ms)) :
    readElements (fuel + 1) depth done (.comma :: ls) = readElements fuel depth (v :: done) ms := by
  rw [readElements, hone]
  rfl

theorem readFields_comma {done : List (String × Json)} {key : String} {ks : List Lexeme}
    (hkey : readKey ls = .ok (key, .colon :: ks)) (hone : readValue fuel depth ks = .ok (v, ms)) :
    readFields (fuel + 1) depth done (.comma :: ls) = readFields fuel depth ((key, v) :: done) ms := by
  rw [readFields, hkey]
  show (readValue fuel depth ks >>= fun r => readFields fuel depth ((key, r.1) :: done) r.2) = _
  rw [hone]
  rfl

end Steps

/-- A key and its colon are read from the front of a field. -/
theorem LexedField.readKey {key : String} {lexed : List Lexeme → Prop} {ls : List Lexeme}
    (h : LexedField key lexed ls) :
    ∃ back, lexed back ∧ ls.length = back.length + 2 ∧
      ∀ rest, Json.readKey (ls ++ rest) = .ok (key, .colon :: (back ++ rest)) := by
  obtain ⟨name, back, ⟨parts, hparts, rfl⟩, hback, rfl⟩ := h
  refine ⟨back, hback, rfl, fun rest => ?_⟩
  show (readString parts .closed >>= fun s => pure (s, Lexeme.colon :: (back ++ rest))) = _
  rw [hparts]
  rfl

mutual

-- Every step takes a lexeme, so there is fuel enough if there is one unit for each lexeme. What is done
-- already is carried along in reverse, as the reader has it.
theorem Lexed.readValue : (v : Json) → (fuel depth : Nat) → {ls : List Lexeme} → v.Lexed ls →
    v.depth ≤ depth → (∀ n ∈ v.numerals, n.fitsDouble = true) → ls.length ≤ fuel →
    (rest : List Lexeme) → readValue fuel depth (ls ++ rest) = .ok (v, rest)
  -- no value is written with no lexemes, so fuel that is enough is not zero
  | _, 0, _, _, h, _, _, hfuel, _ => by
    obtain ⟨l, more, rfl, -⟩ := h.opening
    exact absurd hfuel (Nat.not_succ_le_zero _)
  | .null, fuel + 1, _, _, h, _, _, _, _ => by
    obtain rfl := h
    rfl
  | .bool b, fuel + 1, _, _, h, _, _, _, _ => by
    obtain rfl := h
    rfl
  | .number n, fuel + 1, _, _, h, _, hfits, _, _ => by
    obtain ⟨_, rfl⟩ := h
    exact if_pos (hfits n List.mem_cons_self)
  | .string s, fuel + 1, _, _, h, _, _, _, rest => by
    obtain ⟨_, ⟨parts, hparts, rfl⟩, rfl⟩ := h
    show (readString parts .closed >>= fun s => pure (Json.string s, rest)) = _
    rw [hparts]
    rfl
  | .array [], fuel + 1, depth + 1, _, h, _, _, _, _ => by
    obtain rfl := h
    rfl
  | .array (first :: values), fuel + 1, depth + 1, _, h, hdepth, hfits, hfuel, rest => by
    obtain ⟨front, more, hfront, hmore, rfl⟩ := h
    have hmax := Nat.max_le.mp (Nat.le_of_succ_le_succ hdepth)
    have hnumerals := List.forall_mem_append.mp hfits
    simp only [List.length_cons, List.length_append, List.length_nil] at hfuel
    have hone := Lexed.readValue first fuel depth hfront hmax.1 hnumerals.1 (by omega)
      (more ++ .closeArray :: rest)
    have hmany := LexedElements.readElements values fuel depth hmore hmax.2 hnumerals.2 (by omega)
      [first] rest
    simpa using readValue_array (hfront.head_ne_close _) hone hmany
  | .object [], fuel + 1, depth + 1, _, h, _, _, _, _ => by
    obtain rfl := h
    rfl
  | .object ((key, first) :: fields), fuel + 1, depth + 1, _, h, hdepth, hfits, hfuel, rest => by
    obtain ⟨front, more, hfront, hmore, rfl⟩ := h
    have hmax := Nat.max_le.mp (Nat.le_of_succ_le_succ hdepth)
    have hnumerals := List.forall_mem_append.mp hfits
    obtain ⟨back, hback, hlen, hkey⟩ := hfront.readKey
    simp only [List.length_cons, List.length_append, List.length_nil] at hfuel
    have hone := Lexed.readValue first fuel depth hback hmax.1 hnumerals.1 (by omega)
      (more ++ .closeObject :: rest)
    have hmany := LexedFields.readFields fields fuel depth hmore hmax.2 hnumerals.2 (by omega)
      [(key, first)] rest
    simpa using readValue_object (hkey _) hone hmany

theorem LexedElements.readElements : (values : List Json) → (fuel depth : Nat) → {ls : List Lexeme} →
    LexedElements values ls → elementsDepth values ≤ depth →
    (∀ n ∈ elementNumerals values, n.fitsDouble = true) → ls.length + 1 ≤ fuel →
    (done : List Json) → (rest : List Lexeme) →
    readElements fuel depth done (ls ++ .closeArray :: rest) = .ok (done.reverse ++ values, rest)
  | _, 0, _, _, _, _, _, hfuel, _, _ => absurd hfuel (Nat.not_succ_le_zero _)
  | [], fuel + 1, _, _, h, _, _, _, done, _ => by
    obtain rfl := h
    rw [List.append_nil]
    rfl
  | value :: values, fuel + 1, depth, _, h, hdepth, hfits, hfuel, done, rest => by
    obtain ⟨front, more, hfront, hmore, rfl⟩ := h
    have hmax := Nat.max_le.mp hdepth
    have hnumerals := List.forall_mem_append.mp hfits
    simp only [List.length_cons, List.length_append] at hfuel
    have hone := Lexed.readValue value fuel depth hfront hmax.1 hnumerals.1 (by omega)
      (more ++ .closeArray :: rest)
    have hmany := LexedElements.readElements values fuel depth hmore hmax.2 hnumerals.2 (by omega)
      (value :: done) rest
    rw [List.cons_append, List.append_assoc, readElements_comma hone, hmany]
    simp

theorem LexedFields.readFields : (fields : List (String × Json)) → (fuel depth : Nat) →
    {ls : List Lexeme} → LexedFields fields ls → fieldsDepth fields ≤ depth →
    (∀ n ∈ fieldNumerals fields, n.fitsDouble = true) → ls.length + 1 ≤ fuel →
    (done : List (String × Json)) → (rest : List Lexeme) →
    readFields fuel depth done (ls ++ .closeObject :: rest) = .ok (done.reverse ++ fields, rest)
  | _, 0, _, _, _, _, _, hfuel, _, _ => absurd hfuel (Nat.not_succ_le_zero _)
  | [], fuel + 1, _, _, h, _, _, _, done, _ => by
    obtain rfl := h
    rw [List.append_nil]
    rfl
  | (key, value) :: fields, fuel + 1, depth, _, h, hdepth, hfits, hfuel, done, rest => by
    obtain ⟨front, more, hfront, hmore, rfl⟩ := h
    have hmax := Nat.max_le.mp hdepth
    have hnumerals := List.forall_mem_append.mp hfits
    obtain ⟨back, hback, hlen, hkey⟩ := hfront.readKey
    simp only [List.length_cons, List.length_append] at hfuel
    have hone := Lexed.readValue value fuel depth hback hmax.1 hnumerals.1 (by omega)
      (more ++ .closeObject :: rest)
    have hmany := LexedFields.readFields fields fuel depth hmore hmax.2 hnumerals.2 (by omega)
      ((key, value) :: done) rest
    rw [List.cons_append, List.append_assoc, readFields_comma (hkey _) hone, hmany]
    simp

end

mutual

theorem Lexed.wellFormed : (v : Json) → {ls : List Lexeme} → v.Lexed ls →
    ∀ n ∈ v.numerals, n.WellFormed
  | .null, _, _ | .bool _, _, _ | .string _, _, _ | .array [], _, _ | .object [], _, _ =>
    fun _ hn => absurd hn List.not_mem_nil
  | .number _, _, h => by
    intro m hm
    obtain rfl := List.mem_singleton.mp hm
    exact h.1
  | .array (first :: values), _, h => by
    obtain ⟨_, _, hfront, hmore, _⟩ := h
    exact List.forall_mem_append.mpr ⟨Lexed.wellFormed first hfront, LexedElements.wellFormed values hmore⟩
  | .object ((_, first) :: fields), _, h => by
    obtain ⟨_, _, ⟨_, _, _, hback, _⟩, hmore, _⟩ := h
    exact List.forall_mem_append.mpr ⟨Lexed.wellFormed first hback, LexedFields.wellFormed fields hmore⟩

theorem LexedElements.wellFormed : (values : List Json) → {ls : List Lexeme} →
    LexedElements values ls → ∀ n ∈ elementNumerals values, n.WellFormed
  | [], _, _ => fun _ hn => absurd hn List.not_mem_nil
  | value :: values, _, h => by
    obtain ⟨_, _, hfront, hmore, _⟩ := h
    exact List.forall_mem_append.mpr ⟨Lexed.wellFormed value hfront, LexedElements.wellFormed values hmore⟩

theorem LexedFields.wellFormed : (fields : List (String × Json)) → {ls : List Lexeme} →
    LexedFields fields ls → ∀ n ∈ fieldNumerals fields, n.WellFormed
  | [], _, _ => fun _ hn => absurd hn List.not_mem_nil
  | (_, value) :: fields, _, h => by
    obtain ⟨_, _, ⟨_, _, _, hback, _⟩, hmore, _⟩ := h
    exact List.forall_mem_append.mpr ⟨Lexed.wellFormed value hback, LexedFields.wellFormed fields hmore⟩

end

/-! ## Skimming -/

/-- How skimming goes on behind a value. -/
def Skim.resume (stack : List Container) (rest : List Lexeme) : Except Fault (List Lexeme) :=
  if stack = [] then .ok rest else (afterValue stack).run rest

theorem Skim.run_step {s t : Skim} {l : Lexeme} (h : s.step l = .ok t) (hdone : t.isDone = false)
    (rest : List Lexeme) : s.run (l :: rest) = t.run rest := by
  rw [run, h]
  show (if t.isDone = true then _ else _) = _
  rw [hdone]
  rfl

theorem Skim.run_value {s : Skim} {stack : List Container} {l : Lexeme}
    (h : s.step l = .ok (afterValue stack)) (rest : List Lexeme) :
    s.run (l :: rest) = resume stack rest := by
  rw [run, h]
  cases stack with
  | nil => rfl
  | cons c stack => rfl

theorem Skim.run_firstElement {ls : List Lexeme} (h : ls.head? ≠ some .closeArray)
    (stack : List Container) : run ⟨.firstElement, stack⟩ ls = run ⟨.value, stack⟩ ls := by
  cases ls with
  | nil => rfl
  | cons l rest =>
    have hstep : step ⟨.firstElement, stack⟩ l = step ⟨.value, stack⟩ l := by
      cases l <;> first | rfl | exact absurd rfl h
    rw [run, run, hstep]

mutual

theorem Lexed.skim : (v : Json) → {ls : List Lexeme} → v.Lexed ls → (stack : List Container) →
    (rest : List Lexeme) → Skim.run ⟨.value, stack⟩ (ls ++ rest) = Skim.resume stack rest
  | .null, _, h, stack, rest => by
    obtain rfl := h
    exact Skim.run_value rfl rest
  | .bool b, _, h, stack, rest => by
    obtain rfl := h
    exact Skim.run_value rfl rest
  | .number n, _, h, stack, rest => by
    obtain ⟨_, rfl⟩ := h
    exact Skim.run_value rfl rest
  | .string s, _, h, stack, rest => by
    obtain ⟨_, ⟨parts, hparts, rfl⟩, rfl⟩ := h
    exact Skim.run_value rfl rest
  | .array [], _, h, stack, rest => by
    obtain rfl := h
    show Skim.run _ (.openArray :: .closeArray :: rest) = _
    rw [Skim.run_step rfl rfl]
    exact Skim.run_value rfl rest
  | .array (first :: values), _, h, stack, rest => by
    obtain ⟨front, more, hfront, hmore, rfl⟩ := h
    have hone := Lexed.skim first hfront (.array :: stack) (more ++ .closeArray :: rest)
    have hmany := LexedElements.skim values hmore stack rest
    rw [List.cons_append, Skim.run_step rfl rfl]
    simp only [List.append_assoc, List.cons_append, List.nil_append]
    -- Where the array is not empty, the first element may stand as any other value.
    rw [Skim.run_firstElement (hfront.head_ne_close _), hone]
    exact hmany
  | .object [], _, h, stack, rest => by
    obtain rfl := h
    show Skim.run _ (.openObject :: .closeObject :: rest) = _
    rw [Skim.run_step rfl rfl]
    exact Skim.run_value rfl rest
  | .object ((key, first) :: fields), _, h, stack, rest => by
    obtain ⟨front, more, ⟨_, back, ⟨parts, _, rfl⟩, hback, rfl⟩, hmore, rfl⟩ := h
    have hone := Lexed.skim first hback (.object :: stack) (more ++ .closeObject :: rest)
    have hmany := LexedFields.skim fields hmore stack rest
    rw [List.cons_append, Skim.run_step rfl rfl]
    simp only [List.append_assoc, List.cons_append, List.nil_append]
    rw [Skim.run_step rfl rfl, Skim.run_step rfl rfl, hone]
    exact hmany

theorem LexedElements.skim : (values : List Json) → {ls : List Lexeme} → LexedElements values ls →
    (stack : List Container) → (rest : List Lexeme) →
    Skim.run (Skim.afterValue (.array :: stack)) (ls ++ .closeArray :: rest) = Skim.resume stack rest
  | [], _, h, stack, rest => by
    obtain rfl := h
    exact Skim.run_value rfl rest
  | value :: values, _, h, stack, rest => by
    obtain ⟨front, more, hfront, hmore, rfl⟩ := h
    rw [List.cons_append, List.append_assoc, Skim.run_step rfl rfl,
      Lexed.skim value hfront (.array :: stack) (more ++ .closeArray :: rest)]
    exact LexedElements.skim values hmore stack rest

theorem LexedFields.skim : (fields : List (String × Json)) → {ls : List Lexeme} →
    LexedFields fields ls → (stack : List Container) → (rest : List Lexeme) →
    Skim.run (Skim.afterValue (.object :: stack)) (ls ++ .closeObject :: rest) = Skim.resume stack rest
  | [], _, h, stack, rest => by
    obtain rfl := h
    exact Skim.run_value rfl rest
  | (key, value) :: fields, _, h, stack, rest => by
    obtain ⟨front, more, ⟨_, back, ⟨parts, _, rfl⟩, hback, rfl⟩, hmore, rfl⟩ := h
    simp only [List.append_assoc, List.cons_append]
    rw [Skim.run_step rfl rfl, Skim.run_step rfl rfl, Skim.run_step rfl rfl,
      Lexed.skim value hback (.object :: stack) (more ++ .closeObject :: rest)]
    exact LexedFields.skim fields hmore stack rest

end

/-! ## Unambiguity -/

theorem LexedString.unique {s t : String} {l : Lexeme} (h : LexedString s l) (h' : LexedString t l) :
    s = t := by
  obtain ⟨parts, hparts, rfl⟩ := h
  obtain ⟨parts', hparts', heq⟩ := h'
  injection heq with heq
  rw [← heq, hparts] at hparts'
  injection hparts'

/-- Values of which the lexemes begin the same have the same shell. -/
theorem Lexed.shell_eq {v w : Json} {ls ms r s : List Lexeme} (h : v.Lexed ls) (h' : w.Lexed ms)
    (heq : ls ++ r = ms ++ s) : w.shell = v.shell := by
  obtain ⟨l, more, rfl, hl⟩ := h.opening
  obtain ⟨l', more', rfl, hl'⟩ := h'.opening
  injection heq with heq
  rw [heq, hl'] at hl
  exact Option.some.inj hl

theorem shell_eq_scalar {v w : Json} (hv : v.depth = 0) (h : w.shell = v.shell) : w = v := by
  cases v with
  | array | object => contradiction
  | _ => cases w <;> first | exact h | contradiction

theorem shell_eq_array {w : Json} (h : w.shell = .array []) : ∃ values, w = .array values := by
  cases w with
  | array values => exact ⟨values, rfl⟩
  | _ => contradiction

theorem shell_eq_object {w : Json} (h : w.shell = .object []) : ∃ fields, w = .object fields := by
  cases w with
  | object fields => exact ⟨fields, rfl⟩
  | _ => contradiction

theorem Lexed.length_scalar {v : Json} {ls : List Lexeme} (hv : v.depth = 0) (h : v.Lexed ls) :
    ls.length = 1 := by
  cases v with
  | array | object => contradiction
  | null | bool => rw [h]; rfl
  | number n => rw [h.2]; rfl
  | string s =>
    obtain ⟨l, _, rfl⟩ := h
    rfl

theorem Lexed.unique_scalar {v w : Json} {ls ms r s : List Lexeme} (hv : v.depth = 0) (h : v.Lexed ls)
    (h' : w.Lexed ms) (heq : ls ++ r = ms ++ s) : v = w ∧ r = s := by
  obtain rfl := shell_eq_scalar hv (h.shell_eq h' heq)
  have hlength := (h.length_scalar hv).trans (h'.length_scalar hv).symm
  exact ⟨rfl, (List.append_inj heq hlength).2⟩

theorem LexedField.unique {k k' : String} {lexed lexed' : List Lexeme → Prop} {ls ms r s : List Lexeme}
    (h : LexedField k lexed ls) (h' : LexedField k' lexed' ms) (heq : ls ++ r = ms ++ s) :
    k = k' ∧ ∃ back back', lexed back ∧ lexed' back' ∧ back ++ r = back' ++ s := by
  obtain ⟨name, back, hname, hback, rfl⟩ := h
  obtain ⟨name', back', hname', hback', rfl⟩ := h'
  simp only [List.cons_append, List.cons.injEq, true_and] at heq
  obtain ⟨rfl, heq⟩ := heq
  exact ⟨hname.unique hname', back, back', hback, hback', heq⟩

mutual

/-- The front of a list holds one value at most. -/
theorem Lexed.unique : (v : Json) → {w : Json} → {ls ms r s : List Lexeme} → v.Lexed ls → w.Lexed ms →
    ls ++ r = ms ++ s → v = w ∧ r = s
  | .null, _, _, _, _, _, h, h', heq => h.unique_scalar rfl h' heq
  | .bool _, _, _, _, _, _, h, h', heq => h.unique_scalar rfl h' heq
  | .number _, _, _, _, _, _, h, h', heq => h.unique_scalar rfl h' heq
  | .string _, _, _, _, _, _, h, h', heq => h.unique_scalar rfl h' heq
  | .array [], _, _, _, r, s, h, h', heq => by
    obtain ⟨ws, rfl⟩ := shell_eq_array (h.shell_eq h' heq)
    obtain rfl := h
    cases ws with
    | nil =>
      obtain rfl := h'
      exact ⟨rfl, by simpa using heq⟩
    | cons w ws =>
      obtain ⟨front, more, hfront, hmore, rfl⟩ := h'
      simp only [List.cons_append, List.append_assoc, List.nil_append, List.cons.injEq, true_and] at heq
      -- One of the two arrays is empty, so the other one would begin with its closing bracket.
      exact absurd (congrArg List.head? heq).symm (hfront.head_ne_close _)
  | .array (v :: vs), _, _, _, r, s, h, h', heq => by
    obtain ⟨ws, rfl⟩ := shell_eq_array (h.shell_eq h' heq)
    obtain ⟨front, more, hfront, hmore, rfl⟩ := h
    cases ws with
    | nil =>
      obtain rfl := h'
      simp only [List.cons_append, List.append_assoc, List.nil_append, List.cons.injEq, true_and] at heq
      exact absurd (congrArg List.head? heq) (hfront.head_ne_close _)
    | cons w ws =>
      obtain ⟨front', more', hfront', hmore', rfl⟩ := h'
      simp only [List.cons_append, List.append_assoc, List.nil_append, List.cons.injEq, true_and] at heq
      obtain ⟨rfl, htail⟩ := Lexed.unique v hfront hfront' heq
      obtain ⟨rfl, hrest⟩ := LexedElements.unique vs hmore hmore' htail
      exact ⟨rfl, hrest⟩
  | .object [], _, _, _, r, s, h, h', heq => by
    obtain ⟨gs, rfl⟩ := shell_eq_object (h.shell_eq h' heq)
    obtain rfl := h
    cases gs with
    | nil =>
      obtain rfl := h'
      exact ⟨rfl, by simpa using heq⟩
    | cons g gs =>
      obtain ⟨front, more, ⟨_, _, ⟨parts, _, rfl⟩, _, rfl⟩, hmore, rfl⟩ := h'
      simp at heq
  | .object ((key, v) :: fs), _, _, _, r, s, h, h', heq => by
    obtain ⟨gs, rfl⟩ := shell_eq_object (h.shell_eq h' heq)
    obtain ⟨front, more, hfront, hmore, rfl⟩ := h
    cases gs with
    | nil =>
      obtain rfl := h'
      obtain ⟨_, _, ⟨parts, _, rfl⟩, _, rfl⟩ := hfront
      simp at heq
    | cons g gs =>
      obtain ⟨front', more', hfront', hmore', rfl⟩ := h'
      simp only [List.cons_append, List.append_assoc, List.nil_append, List.cons.injEq, true_and] at heq
      obtain ⟨hkey, back, back', hback, hback', hvalue⟩ := hfront.unique hfront' heq
      obtain ⟨hv, htail⟩ := Lexed.unique v hback hback' hvalue
      obtain ⟨rfl, hrest⟩ := LexedFields.unique fs hmore hmore' htail
      exact ⟨by rw [hkey, hv], hrest⟩

theorem LexedElements.unique : (vs : List Json) → {ws : List Json} → {ls ms r s : List Lexeme} →
    LexedElements vs ls → LexedElements ws ms → ls ++ .closeArray :: r = ms ++ .closeArray :: s →
    vs = ws ∧ r = s
  | [], ws, _, _, _, _, h, h', heq => by
    obtain rfl := h
    cases ws with
    | nil =>
      obtain rfl := h'
      exact ⟨rfl, by simpa using heq⟩
    | cons w ws =>
      obtain ⟨front, more, _, _, rfl⟩ := h'
      simp at heq
  | v :: vs, ws, _, _, _, _, h, h', heq => by
    obtain ⟨front, more, hfront, hmore, rfl⟩ := h
    cases ws with
    | nil =>
      obtain rfl := h'
      simp at heq
    | cons w ws =>
      obtain ⟨front', more', hfront', hmore', rfl⟩ := h'
      simp only [List.cons_append, List.append_assoc, List.cons.injEq, true_and] at heq
      obtain ⟨rfl, htail⟩ := Lexed.unique v hfront hfront' heq
      obtain ⟨rfl, hrest⟩ := LexedElements.unique vs hmore hmore' htail
      exact ⟨rfl, hrest⟩

theorem LexedFields.unique : (fs : List (String × Json)) → {gs : List (String × Json)} →
    {ls ms r s : List Lexeme} → LexedFields fs ls → LexedFields gs ms →
    ls ++ .closeObject :: r = ms ++ .closeObject :: s → fs = gs ∧ r = s
  | [], gs, _, _, _, _, h, h', heq => by
    obtain rfl := h
    cases gs with
    | nil =>
      obtain rfl := h'
      exact ⟨rfl, by simpa using heq⟩
    | cons g gs =>
      obtain ⟨front, more, _, _, rfl⟩ := h'
      simp at heq
  | (key, v) :: fs, gs, _, _, _, _, h, h', heq => by
    obtain ⟨front, more, hfront, hmore, rfl⟩ := h
    cases gs with
    | nil =>
      obtain rfl := h'
      simp at heq
    | cons g gs =>
      obtain ⟨front', more', hfront', hmore', rfl⟩ := h'
      simp only [List.cons_append, List.append_assoc, List.cons.injEq, true_and] at heq
      obtain ⟨hkey, back, back', hback, hback', hvalue⟩ := hfront.unique hfront' heq
      obtain ⟨hv, htail⟩ := Lexed.unique v hback hback' hvalue
      obtain ⟨rfl, hrest⟩ := LexedFields.unique fs hmore hmore' htail
      exact ⟨by rw [hkey, hv], hrest⟩

end

/-- A text spells one value at most. -/
theorem Spells.unique {text : String} {v w : Json} (hv : Spells text v) (hw : Spells text w) : v = w :=
  (Lexed.unique v (r := []) (s := []) hv.lexed hw.lexed rfl).1

end Semant.Json
