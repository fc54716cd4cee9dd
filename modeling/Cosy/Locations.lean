import Mathlib.Data.List.TakeWhile
import Cosy.MemoryMaps

/-!
# The syntax of breakpoint locations

What a location asks of the modules, by the separators it has. The line is read by `std::stoi`, which
is content with a text that only begins with a number. Apart from these texts the location is read
by its form.
-/

namespace Cosy

variable {text number file name module specification : Text} {value : Int} {request : Request}

/-! ### The grammar -/

/-- A number with a sign in front of it, or without. -/
inductive Signed : Text → Int → Prop
  | unsigned {text : Text} {n : Nat} (htext : Spells 10 text n) : Signed text n
  | plus {text : Text} {n : Nat} (htext : Spells 10 text n) : Signed ('+' :: text) n
  | minus {text : Text} {n : Nat} (htext : Spells 10 text n) : Signed ('-' :: text) (-n)

/-- An `int`, after blanks and before anything that does not continue it. -/
def BeginsWithInt (text : Text) (value : Int) : Prop :=
  ∃ blanks number rest, text = blanks ++ (number ++ rest) ∧ (∀ ch ∈ blanks, isSpace ch = true) ∧
    Signed number value ∧ (∀ ch ∈ rest.head?, ∀ digit, ¬ IsDigit 10 ch digit) ∧
    -(2 ^ 31) ≤ value ∧ value < 2 ^ 31

/-- Digits only, and a line that a file may have. -/
def IsLine (number : Text) (line : Nat) : Prop :=
  Spells 10 number line ∧ 1 ≤ line ∧ line < 2 ^ 31

inductive Request where
  | address (a : Address)
  | symbol (name module : Text)
  | line (file : Text) (n : Nat)
  | nothing

def Request.answer (modules : ModuleManager) : Request → List Address
  | .address a => [a]
  | .symbol name module => (modules.resolveSymbol name module).toList
  | .line file n => modules.resolveSourceLine file n
  | .nothing => []

/-- The forms other than an address. -/
inductive Form : Text → Request → Prop
  | inModule {module name : Text} (hmodule : '!' ∉ module) :
      Form (module ++ '!' :: name) (.symbol name module)
  | line {file number : Text} {line : Nat} (hmark : '!' ∉ file ++ ':' :: number)
      (hnumber : ':' ∉ number) (hfile : file ≠ []) (hline : IsLine number line) :
      Form (file ++ ':' :: number) (.line file line)
  | noLine {file number : Text} (hmark : '!' ∉ file ++ ':' :: number) (hnumber : ':' ∉ number)
      (hnone : file = [] ∨ ∀ line, ¬ IsLine number line) : Form (file ++ ':' :: number) .nothing
  | symbol {name : Text} (hmark : '!' ∉ name) (hcolon : ':' ∉ name) : Form name (.symbol name [])

/-- A star decides for an address, and there may be none. -/
inductive Asks : Text → Request → Prop
  | address {text : Text} {address : Address} (haddress : parseAddress text = some address) :
      Asks ('*' :: text) (.address address)
  | noAddress {text : Text} (hnone : parseAddress text = none) : Asks ('*' :: text) .nothing
  | form {specification : Text} {request : Request} (hstar : specification.head? ≠ some '*')
      (hform : Form specification request) : Asks specification request

/-- A star without an address is read as part of another form. -/
inductive AsksOn : Text → Request → Prop
  | address {text : Text} {address : Address} (haddress : parseAddress text = some address) :
      AsksOn ('*' :: text) (.address address)
  | form {specification : Text} {request : Request}
      (hstar : ∀ text address, specification = '*' :: text → parseAddress text ≠ some address)
      (hform : Form specification request) : AsksOn specification request

/-- The text behind the last colon only begins with a number, or the number is not one of a line, or
there is no file. -/
def IsLoose (specification : Text) : Prop :=
  Form specification .nothing ∧ specification.head? ≠ some '*' ∧
    ∃ file number value, specification = file ++ ':' :: number ∧ ':' ∉ number ∧
      BeginsWithInt number value

/-! ### Numbers -/

theorem stoi_eq {negative : Bool} {input rest : Text} {digits : List Nat}
    (hsign : extractSign (text.dropWhile isSpace) = (negative, input))
    (hdigits : leadingDigits 10 input = (digits, rest)) :
    stoi text =
      if digits = [] then none
      else
        let value : Int := if negative then -(numeral 10 digits : Int) else numeral 10 digits
        if -(2 ^ 31) ≤ value && value < 2 ^ 31 then some value else none := by
  have hstoi : stoi text =
      let digits := (leadingDigits 10 (extractSign (text.dropWhile isSpace)).2).1
      if digits = [] then none
      else
        let value : Int :=
          if (extractSign (text.dropWhile isSpace)).1 then -(numeral 10 digits : Int)
          else numeral 10 digits
        if -(2 ^ 31) ≤ value && value < 2 ^ 31 then some value else none := by
    rfl
  rw [hstoi, hsign, hdigits]

theorem eq_of_extractSign {negative : Bool} {input : Text}
    (hsign : extractSign text = (negative, input)) :
    negative = true ∧ text = '-' :: input ∨ negative = false ∧ text = '+' :: input ∨
      negative = false ∧ text = input := by
  unfold extractSign at hsign
  split at hsign
  · obtain ⟨rfl, rfl⟩ := Prod.mk.inj hsign
    exact Or.inl ⟨rfl, rfl⟩
  · obtain ⟨rfl, rfl⟩ := Prod.mk.inj hsign
    exact Or.inr (Or.inl ⟨rfl, rfl⟩)
  · obtain ⟨rfl, rfl⟩ := Prod.mk.inj hsign
    exact Or.inr (Or.inr ⟨rfl, rfl⟩)

theorem IsDigit.ne_mark {ch : Char} {digit : Nat} (hdigit : IsDigit 10 ch digit) :
    isSpace ch = false ∧ ch ≠ '-' ∧ ch ≠ '+' := by
  have hupper : ∀ c ∈ upperDigits, isSpace c = false ∧ c ≠ '-' ∧ c ≠ '+' :=
    List.all_iff_forall_prop.mp (by decide)
  obtain ⟨-, hshown | hshown⟩ := hdigit
  · obtain ⟨hspace, hminus, hplus, -⟩ := unmarked_of_hexDigits ch (List.mem_of_getElem? hshown)
    exact ⟨hspace, hminus, hplus⟩
  · exact hupper ch (List.mem_of_getElem? hshown)

/-- The sign is taken off, and the digits are left. -/
theorem Signed.extractSign (hsigned : Signed number value) (rest : Text) :
    (∀ ch ∈ (number ++ rest).head?, isSpace ch = false) ∧
      ∃ negative front n, Cosy.extractSign (number ++ rest) = (negative, front ++ rest) ∧
        Spells 10 front n ∧ value = if negative then -(n : Int) else n := by
  cases hsigned with
  | @unsigned _ n htext =>
      obtain ⟨-, digits, hdigits, -⟩ := id htext
      cases hdigits with
      | nil => exact absurd rfl htext.1
      | @cons first _ more _ hdigit _ =>
          obtain ⟨hspace, hminus, hplus⟩ := hdigit.ne_mark
          refine ⟨by simpa using hspace, false, first :: more, n, ?_, htext, rfl⟩
          exact extractSign_eq_self hminus hplus (more ++ rest)
  | @plus front n htext => exact ⟨by simp; rfl, false, front, n, rfl, htext, rfl⟩
  | @minus front n htext => exact ⟨by simp; rfl, true, front, n, rfl, htext, rfl⟩

theorem signed_of_extractSign {negative : Bool} {front rest : Text} {n : Nat}
    (hsign : extractSign text = (negative, front ++ rest)) (hfront : Spells 10 front n) :
    ∃ number, text = number ++ rest ∧ Signed number (if negative then -(n : Int) else n) := by
  rcases eq_of_extractSign hsign with ⟨rfl, rfl⟩ | ⟨rfl, rfl⟩ | ⟨rfl, rfl⟩
  · exact ⟨'-' :: front, rfl, .minus hfront⟩
  · exact ⟨'+' :: front, rfl, .plus hfront⟩
  · exact ⟨front, rfl, .unsigned hfront⟩

theorem stoi_eq_some_iff : stoi text = some value ↔ BeginsWithInt text value := by
  have hten : 10 ≤ 16 := by decide
  have hnone : ∀ ch, digitValue 10 ch = none ↔ ∀ digit, ¬ IsDigit 10 ch digit := fun ch => by
    simp only [Option.eq_none_iff_forall_ne_some, ne_eq, digitValue_eq_some_iff hten]
  constructor
  · intro hstoi
    obtain ⟨negative, input, hsign⟩ : ∃ negative input,
        extractSign (text.dropWhile isSpace) = (negative, input) := ⟨_, _, rfl⟩
    obtain ⟨digits, rest, hdigits⟩ : ∃ digits rest, leadingDigits 10 input = (digits, rest) :=
      ⟨_, _, rfl⟩
    rw [stoi_eq hsign hdigits] at hstoi
    obtain ⟨front, rfl, hfront, hrest⟩ := (leadingDigits_eq_iff hten).mp hdigits
    rw [numeral_eq_ofDigits] at hstoi
    dsimp only at hstoi
    by_cases hnil : digits = []
    · rw [if_pos hnil] at hstoi
      cases hstoi
    rw [if_neg hnil, Option.ite_none_right_eq_some, Option.some.injEq, Bool.and_eq_true,
      decide_eq_true_eq, decide_eq_true_eq] at hstoi
    obtain ⟨⟨hlow, hhigh⟩, rfl⟩ := hstoi
    have hne : front ≠ [] := (not_congr (digits_eq_nil_iff hfront)).mp hnil
    obtain ⟨number, hnumber, hsigned⟩ := signed_of_extractSign hsign ⟨hne, digits, hfront, rfl⟩
    refine ⟨text.takeWhile isSpace, number, rest, ?_, fun ch => List.mem_takeWhile_imp, hsigned,
      fun ch hch => (hnone ch).mp (hrest ch hch), hlow, hhigh⟩
    rw [← hnumber, List.takeWhile_append_dropWhile]
  · rintro ⟨blanks, number, rest, rfl, hblanks, hsigned, hrest, hlow, hhigh⟩
    obtain ⟨hhead, negative, front, n, hsign, hfront, hvalue⟩ := hsigned.extractSign rest
    obtain ⟨hne, digits, hdigits, hn⟩ := hfront
    have hdrop : (blanks ++ (number ++ rest)).dropWhile isSpace = number ++ rest := by
      rw [List.dropWhile_append_of_pos hblanks, dropWhile_eq_self_of_head hhead]
    have hsome : digits ≠ [] := (not_congr (digits_eq_nil_iff hdigits)).mpr hne
    have hleading : leadingDigits 10 (front ++ rest) = (digits, rest) :=
      (leadingDigits_eq_iff hten).mpr
        ⟨front, rfl, hdigits, fun ch hch => (hnone ch).mpr (hrest ch hch)⟩
    rw [← hdrop] at hsign
    rw [stoi_eq hsign hleading, if_neg hsome, numeral_eq_ofDigits, hn]
    dsimp only
    rw [← hvalue]
    refine if_pos ?_
    rw [Bool.and_eq_true, decide_eq_true_eq, decide_eq_true_eq]
    exact ⟨hlow, hhigh⟩

theorem IsLine.beginsWithInt {line : Nat} (hline : IsLine number line) :
    BeginsWithInt number line := by
  obtain ⟨hnumber, hlow, hhigh⟩ := hline
  have hfits : (line : Int) < 2 ^ 31 := by exact_mod_cast hhigh
  refine ⟨[], number, [], by simp, by simp, .unsigned hnumber, by simp, ?_, hfits⟩
  omega

/-! ### What is resolved -/

theorem exists_asks (specification : Text) : ∃ request, Asks specification request := by
  by_cases hstar : specification.head? = some '*'
  · obtain ⟨text, rfl⟩ := List.head?_eq_some_iff.mp hstar
    cases haddress : parseAddress text with
    | none => exact ⟨_, .noAddress haddress⟩
    | some a => exact ⟨_, .address haddress⟩
  cases hmark : splitFirst '!' specification with
  | some parts =>
      obtain ⟨module, name⟩ := parts
      obtain ⟨hmodule, rfl⟩ := splitFirst_eq_some_iff.mp hmark
      exact ⟨_, .form hstar (.inModule hmodule)⟩
  | none =>
      have hmark' := splitFirst_eq_none_iff.mp hmark
      cases hcolon : splitLast ':' specification with
      | none => exact ⟨_, .form hstar (.symbol hmark' (splitLast_eq_none_iff.mp hcolon))⟩
      | some parts =>
          obtain ⟨file, number⟩ := parts
          obtain ⟨hnumber, rfl⟩ := splitLast_eq_some_iff.mp hcolon
          by_cases hfile : file = []
          · exact ⟨_, .form hstar (.noLine hmark' hnumber (Or.inl hfile))⟩
          by_cases hline : ∃ line, IsLine number line
          · obtain ⟨line, hline⟩ := hline
            exact ⟨_, .form hstar (.line hmark' hnumber hfile hline)⟩
          · exact ⟨_, .form hstar (.noLine hmark' hnumber (Or.inr (not_exists.mp hline)))⟩

theorem resolveSpecification_of_head (modules : ModuleManager)
    (hstar : specification.head? ≠ some '*') :
    resolveSpecification modules specification =
      match splitFirst '!' specification with
      | some (module, symbol) => (modules.resolveSymbol symbol module).toList
      | none =>
          match splitLast ':' specification with
          | some (file, line) =>
              match stoi line with
              | some line => modules.resolveSourceLine file line
              | none => []
          | none => (modules.resolveSymbol specification []).toList := by
  unfold resolveSpecification
  split
  · exact absurd rfl hstar
  · rfl

/-- What follows the number is not looked at. -/
theorem resolveSpecification_of_int (modules : ModuleManager)
    (hstar : (file ++ ':' :: number).head? ≠ some '*') (hmark : '!' ∉ file ++ ':' :: number)
    (hnumber : ':' ∉ number) (hint : BeginsWithInt number value) :
    resolveSpecification modules (file ++ ':' :: number) = modules.resolveSourceLine file value := by
  rw [resolveSpecification_of_head modules hstar, splitFirst_eq_none_iff.mpr hmark,
    splitLast_eq_some_iff.mpr ⟨hnumber, rfl⟩]
  dsimp only
  rw [stoi_eq_some_iff.mpr hint]

theorem resolveSpecification_form (modules : ModuleManager)
    (hstar : specification.head? ≠ some '*') (hform : Form specification request)
    (hloose : ¬ IsLoose specification) :
    resolveSpecification modules specification = request.answer modules := by
  cases hform with
  | inModule hmodule =>
      rw [resolveSpecification_of_head modules hstar, splitFirst_append hmodule]
      rfl
  | symbol hmark hcolon =>
      rw [resolveSpecification_of_head modules hstar, splitFirst_eq_none_iff.mpr hmark,
        splitLast_eq_none_iff.mpr hcolon]
      rfl
  | line hmark hnumber hfile hline =>
      exact resolveSpecification_of_int modules hstar hmark hnumber hline.beginsWithInt
  | @noLine file number hmark hnumber hnone =>
      rw [resolveSpecification_of_head modules hstar, splitFirst_eq_none_iff.mpr hmark,
        splitLast_eq_some_iff.mpr ⟨hnumber, rfl⟩]
      dsimp only
      cases hstoi : stoi number with
      | none => rfl
      | some value =>
          exact absurd ⟨.noLine hmark hnumber hnone, hstar, file, number, value, rfl, hnumber,
            stoi_eq_some_iff.mp hstoi⟩ hloose

theorem not_isLoose_of_line {line : Nat} (hnumber : ':' ∉ number) (hfile : file ≠ [])
    (hline : IsLine number line) : ¬ IsLoose (file ++ ':' :: number) := by
  rintro ⟨hnothing, -⟩
  generalize hparts : file ++ ':' :: number = specification at hnothing
  cases hnothing with
  | noLine _ hnumber' hnone =>
      have hsplit := splitLast_eq_some_iff.mpr ⟨hnumber, hparts.symm⟩
      rw [splitLast_eq_some_iff.mpr ⟨hnumber', rfl⟩] at hsplit
      obtain ⟨rfl, rfl⟩ := Prod.mk.inj (Option.some.inj hsplit)
      rcases hnone with hnil | hnone
      · exact hfile hnil
      · exact hnone line hline

/-- Every location has a form, and but for the loose ones it is resolved as that form says. -/
theorem location_grammar :
    (∀ specification, ∃ request, Asks specification request) ∧
      ∀ modules specification request, Asks specification request → ¬ IsLoose specification →
        resolveSpecification modules specification = request.answer modules := by
  refine ⟨exists_asks, fun modules specification request hasks hloose => ?_⟩
  cases hasks with
  | address haddress => rw [resolveSpecification, haddress]; rfl
  | noAddress hnone => rw [resolveSpecification, hnone]; rfl
  | form hstar hform => exact resolveSpecification_form modules hstar hform hloose

/-- Modules with one symbol in one library, and one line in one file. -/
def listing : ModuleManager where
  modules := []
  resolveSymbol name module :=
    if name = "f".toList && module = "*lib".toList then some 0x4000 else none
  resolveSourceLine file line := if file = "a.c".toList && line = 7 then [0x1007] else []
  location _ := ⟨[], 0, 0, []⟩
  function _ := []
  scopes _ := []

theorem location_grammar_line : resolveSpecification listing "a.c:7".toList = [0x1007] := by
  have hcolon : ':' ∉ "7".toList := by decide
  have hfile : "a.c".toList ≠ [] := by decide
  have hline : IsLine "7".toList 7 :=
    ⟨(fromChars_eq_iff (v := 7) (by decide)).mp (by decide), by decide, by decide⟩
  have hform : Form ("a.c".toList ++ ':' :: "7".toList) (.line "a.c".toList 7) :=
    .line (by decide) hcolon hfile hline
  exact location_grammar.2 listing _ _ (.form (by decide) hform)
    (not_isLoose_of_line hcolon hfile hline)

/-- A star with no address behind it resolves to nothing, although the library has the symbol. -/
theorem resolveSpecification_not_asksOn :
    ¬ ∀ modules specification request, AsksOn specification request →
      resolveSpecification modules specification = request.answer modules := by
  intro hall
  have hstar : ∀ text address, "*lib!f".toList = '*' :: text → parseAddress text ≠ some address := by
    intro text address htext
    have hparse : parseAddress "lib!f".toList = none := by decide
    have hrest : text = "lib!f".toList := (List.cons.inj htext).2.symm
    rw [hrest, hparse]
    simp
  have hform : Form ("*lib".toList ++ '!' :: "f".toList) (.symbol "f".toList "*lib".toList) :=
    .inModule (by decide)
  have hnone := hall listing _ _ (.form hstar hform)
  revert hnone
  decide

end Cosy
