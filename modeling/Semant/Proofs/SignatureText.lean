import Mathlib.Data.List.Basic
import Semant.Signature

/-!
# Signatures and their texts

A call that does not fit is reported by two signatures as texts, the declared one and the one that the
arguments make. The report is of use only if the texts differ whenever the signatures do.

They need not. A struct may be called `int`, a function `f(int`, and a struct without a name between
commas cannot be told from no struct at all. Names that a front end hands over are not of this kind:
they are not empty, hold none of the characters that separate the parts of a signature, and no struct
has the name of a built-in type. Among such signatures the text can be taken apart again, at the blank,
at the opening parenthesis and at the commas (`Signature.text_injective`).

Of a call less is needed. Where the declared signature consists of names, the arguments may have types
with any names but those of built-in types: as many arguments as parameters leave no comma to a name.
-/

set_option autoImplicit false

namespace Semant

/-- The text can be part of a signature without being taken for more than one part of it. -/
def IsName (text : String) : Prop :=
  text ≠ "" ∧ ∀ c ∈ [' ', ',', '(', ')'], c ∉ text.toList

instance (text : String) : Decidable (IsName text) :=
  haveI : Decidable (∀ c ∈ [' ', ',', '(', ')'], c ∉ text.toList) := List.decidableBAll _ _
  inferInstanceAs (Decidable (_ ∧ _))

/-- No struct is called like a built-in type. -/
def Ty.Unmistakable : Ty → Prop
  | .struct name => name ∉ ["int", "float", "string", "bool", "nothing"]
  | _ => True

/-- A struct has a name, and not that of a built-in type. -/
def Ty.Legible : Ty → Prop
  | .struct name => IsName name ∧ (Ty.struct name).Unmistakable
  | _ => True

instance (name : String) : Decidable (Ty.struct name).Unmistakable :=
  inferInstanceAs (Decidable (name ∉ _))

instance : (type : Ty) → Decidable type.Legible
  | .struct _ => inferInstanceAs (Decidable (_ ∧ _))
  | .int | .float | .string | .bool | .nothing => isTrue trivial

/-- The function has a name, and so have all structs among its types. -/
structure Signature.Legible (s : Signature) : Prop where
  returns : s.returns.Legible
  name : IsName s.name
  params : ∀ type ∈ s.params, type.Legible

/-! ## Types -/

theorem Ty.Legible.isName {type : Ty} (h : type.Legible) : IsName type.text := by
  cases type with
  | struct name => exact h.1
  | int | float | string | bool | nothing => decide

theorem Ty.Legible.unmistakable {type : Ty} (h : type.Legible) : type.Unmistakable := by
  cases type with
  | struct name => exact h.2
  | int | float | string | bool | nothing => trivial

/-- A built-in type and a struct have different texts, and so have two types of one kind. -/
theorem Ty.text_injective {a b : Ty} (ha : a.Unmistakable) (hb : b.Unmistakable)
    (h : a.text = b.text) : a = b := by
  cases a with
  | struct name =>
    cases b with
    | struct other => exact congrArg Ty.struct h
    | int | float | string | bool | nothing =>
      exact absurd ha (by simp [show name = _ from h, text, Unmistakable])
  | int | float | string | bool | nothing =>
    cases b with
    | struct other => exact absurd hb (by simp [show other = _ from h.symm, text, Unmistakable])
    | int | float | string | bool | nothing => first | rfl | exact absurd h (by decide)

/-! ## Lists of parameters -/

/-- What stands between the parentheses of a signature. -/
def Ty.list (types : List Ty) : String := ",".intercalate (types.map text)

theorem Ty.list_singleton (a : Ty) : list [a] = a.text := by
  simp [list]

theorem Ty.list_cons_cons (a b : Ty) (rest : List Ty) :
    list (a :: b :: rest) = a.text ++ "," ++ list (b :: rest) :=
  String.intercalate_cons_cons

/-- There is a comma between any two types. There are no others exactly if the types have none. -/
theorem Ty.commas_list {types : List Ty} (hne : types ≠ []) :
    types.length ≤ (list types).toList.count ',' + 1 ∧
      ((list types).toList.count ',' + 1 = types.length ↔
        ∀ type ∈ types, ',' ∉ type.text.toList) := by
  induction types with
  | nil => exact absurd rfl hne
  | cons a rest ih =>
    cases rest with
    | nil => simp [list_singleton, List.count_eq_zero]
    | cons b rest =>
      obtain ⟨hle, hiff⟩ := ih (List.cons_ne_nil _ _)
      have hcount : (list (a :: b :: rest)).toList.count ','
          = a.text.toList.count ',' + ((list (b :: rest)).toList.count ',' + 1) := by
        rw [list_cons_cons]
        simp [List.count_append]
      rw [hcount, List.length_cons, List.forall_mem_cons, ← hiff, ← List.count_eq_zero]
      omega

theorem Ty.commas_of_legible {types : List Ty} (h : ∀ type ∈ types, type.Legible)
    (hne : types ≠ []) : (list types).toList.count ',' + 1 = types.length :=
  (commas_list hne).2.mpr fun type hm => (h type hm).isName.2 ',' (by decide)

theorem Ty.list_ne_empty {types : List Ty} (h : ∀ type ∈ types, type.Legible) (hne : types ≠ []) :
    list types ≠ "" := by
  cases types with
  | nil => exact absurd rfl hne
  | cons a rest =>
    have ha : a.text ≠ "" := (h a List.mem_cons_self).isName.1
    cases rest with
    | nil => rwa [list_singleton]
    | cons b rest =>
      rw [list_cons_cons]
      simp [ha]

/-- Lists that read alike have the same length, since it can be told from the commas. -/
theorem Ty.length_eq_of_list {as bs : List Ty} (ha : ∀ type ∈ as, type.Legible)
    (hb : ∀ type ∈ bs, type.Legible) (h : list as = list bs) : as.length = bs.length := by
  by_cases hnil : as = []
  · subst hnil
    by_cases hnil' : bs = []
    · rw [hnil']
    · exact absurd h.symm (list_ne_empty hb hnil')
  · by_cases hnil' : bs = []
    · subst hnil'
      exact absurd h (list_ne_empty ha hnil)
    · rw [← commas_of_legible ha hnil, ← commas_of_legible hb hnil', h]

theorem Ty.texts_injective {as bs : List Ty} (ha : ∀ type ∈ as, type.Unmistakable)
    (hb : ∀ type ∈ bs, type.Unmistakable)
    (h : (as.map fun type => type.text.toList) = bs.map fun type => type.text.toList) : as = bs := by
  induction as generalizing bs with
  | nil => exact (List.map_eq_nil_iff.mp h.symm).symm
  | cons a as ih =>
    cases bs with
    | nil => cases h
    | cons b bs =>
      obtain ⟨hhead, htail⟩ := List.cons.inj h
      rw [List.forall_mem_cons] at ha hb
      rw [text_injective ha.1 hb.1 (String.toList_inj.mp hhead), ih ha.2 hb.2 htail]

/-- Lists of one length that read alike are the same, also if only one of them is known to consist of
names: there are no commas left for the names in the other one. -/
theorem Ty.list_injective {as bs : List Ty} (ha : ∀ type ∈ as, type.Legible)
    (hb : ∀ type ∈ bs, type.Unmistakable) (hlength : as.length = bs.length)
    (h : list as = list bs) : as = bs := by
  by_cases hnil : as = []
  · subst hnil
    exact (List.length_eq_zero_iff.mp hlength.symm).symm
  · have hnil' : bs ≠ [] := by
      rintro rfl
      exact hnil (List.length_eq_zero_iff.mp hlength)
    have hcommas := commas_of_legible ha hnil
    have hfree : ∀ type ∈ bs, ',' ∉ type.text.toList :=
      (commas_list hnil').2.mp (by rw [← h, ← hlength, hcommas])
    have hparts : ∀ {types : List Ty}, types ≠ [] → (∀ type ∈ types, ',' ∉ type.text.toList) →
        (list types).toList.splitOn ',' = types.map fun type => type.text.toList := by
      intro types hne hnone
      rw [list, String.toList_intercalate, List.map_map]
      refine List.splitOn_intercalate ',' ?_ (by simpa using hne)
      intro part hm
      obtain ⟨type, hin, rfl⟩ := List.mem_map.mp hm
      exact hnone type hin
    refine texts_injective (fun type hm => (ha type hm).unmistakable) hb ?_
    rw [← hparts hnil ((commas_list hnil).2.mp hcommas), ← hparts hnil' hfree, h]

/-- Only commas and the characters of names stand between the parentheses. -/
theorem Ty.notMem_list {types : List Ty} (h : ∀ type ∈ types, type.Legible) {c : Char}
    (hc : c ∈ [' ', ',', '(', ')']) (hcomma : c ≠ ',') : c ∉ (list types).toList := by
  induction types with
  | nil => simp [list]
  | cons a rest ih =>
    rw [List.forall_mem_cons] at h
    have hhere : c ∉ a.text.toList := h.1.isName.2 c hc
    have hrest := ih h.2
    cases rest with
    | nil => rwa [list_singleton]
    | cons b rest =>
      rw [list_cons_cons]
      simp [hhere, hcomma, hrest]

/-! ## Signatures -/

namespace Signature

theorem toList_text (s : Signature) :
    s.text.toList = s.returns.text.toList ++ ' ' :: (s.name.toList ++
      '(' :: ((Ty.list s.params).toList ++ [')'])) := by
  have htext : s.text = s.returns.text ++ " " ++ s.name ++ "(" ++ Ty.list s.params ++ ")" := rfl
  simp [htext]

/-- **The text of a signature tells which one it is.** The only blank ends the return type, and the
first parenthesis the name. -/
theorem text_injective {s t : Signature} (hs : s.Legible) (ht : t.Legible) (h : s.text = t.text) :
    s = t := by
  have hchars := congrArg String.toList h
  rw [toList_text, toList_text] at hchars
  have hblank : ' ' ∉ s.name.toList ++ '(' :: ((Ty.list s.params).toList ++ [')']) := by
    have hname : ' ' ∉ s.name.toList := hs.name.2 ' ' (by decide)
    have hparams : ' ' ∉ (Ty.list s.params).toList :=
      Ty.notMem_list hs.params (by decide) (by decide)
    simp [hname, hparams]
  have hparen : '(' ∉ (Ty.list s.params).toList ++ [')'] := by
    have hparams : '(' ∉ (Ty.list s.params).toList :=
      Ty.notMem_list hs.params (by decide) (by decide)
    simp [hparams]
  obtain ⟨hreturns, -, hrest⟩ :=
    (List.append_cons_inj_of_notMem (hs.returns.isName.2 ' ' (by decide)) hblank).mp hchars
  obtain ⟨hname, -, hlist⟩ :=
    (List.append_cons_inj_of_notMem (hs.name.2 '(' (by decide)) hparen).mp hrest
  have hlist := String.toList_inj.mp (List.append_cancel_right hlist)
  have hparams := Ty.list_injective hs.params (fun type hm => (ht.params type hm).unmistakable)
    (Ty.length_eq_of_list hs.params ht.params hlist) hlist
  obtain ⟨returns, name, params⟩ := s
  obtain ⟨returns', name', params'⟩ := t
  rw [mk.injEq]
  exact ⟨Ty.text_injective hs.returns.unmistakable ht.returns.unmistakable
      (String.toList_inj.mp hreturns),
    String.toList_inj.mp hname, hparams⟩

end Signature

/-- Signatures with one name and one return type differ in the list of their parameters only. -/
theorem Signature.list_eq_of_text {s t : Signature} (hreturns : s.returns = t.returns)
    (hname : s.name = t.name) (h : s.text = t.text) : Ty.list s.params = Ty.list t.params := by
  have hchars := congrArg String.toList h
  rw [toList_text, toList_text, hreturns, hname] at hchars
  have hrest := (List.cons.inj (List.append_cancel_left hchars)).2
  have hlist := (List.cons.inj (List.append_cancel_left hrest)).2
  exact String.toList_inj.mp (List.append_cancel_right hlist)

/-! ## Calls -/

theorem knownTypes?_eq_some {args : List (Option Ty)} {types : List Ty} :
    knownTypes? args = some types ↔ args = types.map some := by
  induction args generalizing types with
  | nil => cases types <;> simp [knownTypes?]
  | cons arg rest ih =>
    cases arg with
    | none => cases types <;> simp [knownTypes?]
    | some type =>
      rw [knownTypes?, Option.map_eq_some_iff]
      cases types with
      | nil => simp
      | cons first more => simp [ih, and_comm]

theorem knownTypes?_eq_none {args : List (Option Ty)} : knownTypes? args = none ↔ none ∈ args := by
  induction args with
  | nil => simp [knownTypes?]
  | cons arg rest ih => cases arg <;> simp [knownTypes?, ih]

namespace Signature

variable {declared : Signature} {args : List (Option Ty)}

/-- The number of arguments is wrong. -/
theorem validate_of_length_ne (h : args.length ≠ declared.arity) :
    declared.validate args = .error (.arityMismatch declared.arity args.length) := by
  rw [validate, if_pos (Ne.symm h)]

/-- The number is right, but not all arguments have a type. -/
theorem validate_of_unknown (h : args.length = declared.arity) (hnone : none ∈ args) :
    declared.validate args = .ok () := by
  rw [validate, if_neg (not_not_intro h.symm), knownTypes?_eq_none.mpr hnone]

/-- The number is right and all types are known. The signature that they make is compared. -/
theorem validate_of_known {types : List Ty} (h : args.length = declared.arity)
    (htypes : args = types.map some) :
    declared.validate args = if declared.params = types then .ok ()
      else .error (.signatureMismatch declared { declared with params := types }) := by
  have hsame : declared = { declared with params := types } ↔ declared.params = types :=
    ⟨fun heq => congrArg params heq, fun heq => heq ▸ rfl⟩
  rw [validate, if_neg (not_not_intro h.symm), knownTypes?_eq_some.mpr htypes]
  simp only [hsame]

end Signature

/-- **Signatures are compared as their texts are.** Let the names in a signature be names.

* It is the same as another one of this kind exactly if their texts are the same.
* A call with any arguments is accepted exactly if there are as many of them as parameters, and either
  the type of one is unknown or their types are those of the parameters. It is refused for their number
  exactly if that is wrong, and otherwise for the signature that they make. The message quotes both
  signatures, and never with the same text as long as no argument is a struct that is called like a
  built-in type. -/
theorem legible_signatures_told_apart (declared : Signature) (h : declared.Legible) :
    (∀ other : Signature, other.Legible → (declared = other ↔ declared.text = other.text)) ∧
    ∀ args : List (Option Ty),
      (declared.validate args = .ok () ↔
        args.length = declared.arity ∧ (none ∈ args ∨ args = declared.params.map some)) ∧
      (declared.validate args = .error (.arityMismatch declared.arity args.length) ↔
        args.length ≠ declared.arity) ∧
      (args.length = declared.arity → none ∉ args → args ≠ declared.params.map some →
        ∃ found : Signature,
          declared.validate args = .error (.signatureMismatch declared found) ∧
          found.returns = declared.returns ∧ found.name = declared.name ∧
          args = found.params.map some ∧
          (CallError.signatureMismatch declared found).message
            = "expected function proto " ++ declared.text ++ " but got " ++ found.text ∧
          ((∀ type, some type ∈ args → type.Unmistakable) → declared.text ≠ found.text)) := by
  refine ⟨?_, fun args => ?_⟩
  · intro other hother
    exact ⟨fun heq => heq ▸ rfl, Signature.text_injective h hother⟩
  -- the number of arguments decides first, as in `validate`
  by_cases hlength : args.length = declared.arity
  swap
  · rw [Signature.validate_of_length_ne hlength]
    simp [hlength]
  cases hknown : knownTypes? args with
  | none =>
    have hnone := knownTypes?_eq_none.mp hknown
    rw [Signature.validate_of_unknown hlength hnone]
    simp [hlength, hnone]
  | some types =>
    have htypes := knownTypes?_eq_some.mp hknown
    have hnone : none ∉ args := by simp [htypes]
    have hsame : args = declared.params.map some ↔ declared.params = types := by
      rw [htypes, List.map_inj_right fun _ _ => Option.some.inj, eq_comm]
    rw [Signature.validate_of_known hlength htypes, hsame]
    by_cases hparams : declared.params = types
    · rw [if_pos hparams]
      refine ⟨by simp [hlength, hparams], by simp [hlength], fun _ _ hne => ?_⟩
      exact absurd (hsame.mpr hparams) hne
    · rw [if_neg hparams]
      refine ⟨by simp [hnone, hparams], by simp [hlength], fun _ _ _ => ?_⟩
      -- the signature found may not be legible, so `text_injective` does not apply; the lists of
      -- types are compared on their own
      refine ⟨_, rfl, rfl, rfl, htypes, rfl, fun hargs htext => hparams ?_⟩
      have hlist : Ty.list declared.params = Ty.list types :=
        Signature.list_eq_of_text (t := { declared with params := types }) rfl rfl htext
      have htypesLength : types.length = declared.params.length := by
        rw [htypes, List.length_map] at hlength
        exact hlength
      refine Ty.list_injective h.params (fun type hm => hargs type ?_) htypesLength.symm hlist
      rw [htypes]
      exact List.mem_map_of_mem hm

/-- Two structs are handed over in the wrong order. -/
theorem swapped_structs_told_apart :
    let declared : Signature := ⟨.nothing, "move", [.struct "Point", .struct "Size"]⟩
    let args : List (Option Ty) := [some (.struct "Size"), some (.struct "Point")]
    declared.Legible ∧ (∀ type, some type ∈ args → type.Unmistakable) ∧
      ∃ found, declared.validate args = .error (.signatureMismatch declared found) ∧
        declared.text ≠ found.text := by
  intro declared args
  have hpoint : (Ty.struct "Point").Legible := by decide
  have hsize : (Ty.struct "Size").Legible := by decide
  have hlegible : declared.Legible := ⟨trivial, by decide, by simp [declared, hpoint, hsize]⟩
  have hargs : ∀ type, some type ∈ args → type.Unmistakable := by
    intro type hm
    have hcases : type = .struct "Size" ∨ type = .struct "Point" := by simpa [args] using hm
    rcases hcases with rfl | rfl
    · exact hsize.unmistakable
    · exact hpoint.unmistakable
  obtain ⟨-, hcalls⟩ := legible_signatures_told_apart declared hlegible
  obtain ⟨found, hrefused, -, -, -, -, htext⟩ := (hcalls args).2.2 rfl (by decide) (by decide)
  exact ⟨hlegible, hargs, found, hrefused, htext hargs⟩

/-- Nothing keeps an argument from being a struct called like a built-in type, though no parameter is
one. Then the call is refused, as it should be, but both signatures in the message read the same. -/
theorem struct_named_int_quoted_alike :
    let declared : Signature := ⟨.nothing, "f", [.int]⟩
    let found : Signature := ⟨.nothing, "f", [.struct "int"]⟩
    declared.Legible ∧
      declared.validate [some (.struct "int")] = .error (.signatureMismatch declared found) ∧
      declared.text = "nothing f(int)" ∧ found.text = "nothing f(int)" := by
  intro declared found
  exact ⟨⟨trivial, by decide, by simp [declared, Ty.Legible]⟩, rfl, rfl, rfl⟩

end Semant
