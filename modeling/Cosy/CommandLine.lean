import Cosy.Common

/-!
# The words of a command line

`words` goes through the characters once, with the word so far and the quote that is open. A grammar
says what the words of a line are: blanks and words alternate, and a word is made of plain characters
and of segments in quotes.
-/

namespace Cosy

variable {ch quote : Char} {text rest content inside run gap input : Text} {contents ws : List Text}

/-! ### The grammar -/

def IsQuote (ch : Char) : Prop := ch = singleQuote ∨ ch = doubleQuote

def IsBlanks (run : Text) : Prop := run ≠ [] ∧ ∀ ch ∈ run, isSpace ch = true

/-- A word with its content. The flag says that a quote is open at its end. -/
inductive IsWord : Bool → Text → Text → Prop
  | plain {ch : Char} (hspace : isSpace ch = false) (hquote : ¬ IsQuote ch) : IsWord false [ch] [ch]
  | quoted {quote : Char} {inside : Text} (hquote : IsQuote quote) (hinside : quote ∉ inside) :
      IsWord false (quote :: (inside ++ [quote])) inside
  | unclosed {quote : Char} {inside : Text} (hquote : IsQuote quote) (hinside : quote ∉ inside) :
      IsWord true (quote :: inside) inside
  | join {opened : Bool} {text content text' content' : Text} (hword : IsWord false text content)
      (hrest : IsWord opened text' content') : IsWord opened (text ++ text') (content ++ content')

/-- What a line may begin with. -/
inductive Side where
  | word
  | blanks

/-- The line alternates between words and blanks and has words with these contents. A quote that is
never closed takes the rest of it. -/
inductive Reads : Side → Text → List Text → Prop
  | done (side : Side) : Reads side [] []
  | blanks {run rest : Text} {contents : List Text} (hrun : IsBlanks run)
      (hrest : Reads .word rest contents) : Reads .blanks (run ++ rest) contents
  | word {text content rest : Text} {contents : List Text} (hword : IsWord false text content)
      (hrest : Reads .blanks rest contents) : Reads .word (text ++ rest) (content :: contents)
  | unclosed {text content : Text} (hword : IsWord true text content) : Reads .word text [content]

def LineReads (input : Text) (contents : List Text) : Prop := ∃ side, Reads side input contents

/-! ### Every line can be read -/

theorem not_isQuote_of_isSpace (hspace : isSpace ch = true) : ¬ IsQuote ch := by
  rintro (rfl | rfl) <;> revert hspace <;> decide

/-- A word in front of a line becomes part of the word that the line begins with, if it does. -/
theorem LineReads.word (hword : IsWord false text content) (hrest : LineReads rest contents) :
    ∃ contents', LineReads (text ++ rest) contents' := by
  obtain ⟨side, hreads⟩ := hrest
  cases hreads with
  | done => exact ⟨_, .word, .word hword (.done .blanks)⟩
  | blanks hrun hreads => exact ⟨_, .word, .word hword (.blanks hrun hreads)⟩
  | word hfirst hreads =>
      rw [← List.append_assoc]
      exact ⟨_, .word, .word (.join hword hfirst) hreads⟩
  | unclosed hlast => exact ⟨_, .word, .unclosed (.join hword hlast)⟩

theorem LineReads.blank (hspace : isSpace ch = true) (hrest : LineReads rest contents) :
    LineReads (ch :: rest) contents := by
  have hone : IsBlanks [ch] := ⟨List.cons_ne_nil ch [], by simpa using hspace⟩
  obtain ⟨side, hreads⟩ := hrest
  cases hreads with
  | done => exact ⟨.blanks, .blanks hone (.done .word)⟩
  | blanks hrun hreads =>
      have hlonger : IsBlanks (ch :: _) :=
        ⟨List.cons_ne_nil ch _, List.forall_mem_cons.mpr ⟨hspace, hrun.2⟩⟩
      exact ⟨.blanks, .blanks hlonger hreads⟩
  | word hfirst hreads => exact ⟨.blanks, .blanks hone (.word hfirst hreads)⟩
  | unclosed hlast => exact ⟨.blanks, .blanks hone (.unclosed hlast)⟩

theorem exists_lineReads (input : Text) : ∃ contents, LineReads input contents := by
  induction hlength : input.length using Nat.strong_induction_on generalizing input with
  | _ n ih =>
      subst hlength
      cases input with
      | nil => exact ⟨[], .word, .done .word⟩
      | cons ch rest =>
          by_cases hspace : isSpace ch = true
          · obtain ⟨contents, hrest⟩ := ih rest.length (by simp) rest rfl
            exact ⟨contents, hrest.blank hspace⟩
          by_cases hquote : IsQuote ch
          · by_cases hclosed : ch ∈ rest
            · obtain ⟨inside, after, rfl, hinside⟩ := List.eq_append_cons_of_mem hclosed
              obtain ⟨contents, hafter⟩ := ih after.length (by simp; omega) after rfl
              have hline := hafter.word (.quoted hquote hinside)
              simpa using hline
            · exact ⟨[rest], .word, .unclosed (.unclosed hquote hclosed)⟩
          · obtain ⟨contents, hrest⟩ := ih rest.length (by simp) rest rfl
            exact hrest.word (.plain (Bool.eq_false_iff.mpr hspace) hquote)

/-! ### The loop -/

/-- A word is kept unless it is empty. -/
def kept (current : Text) : List Text := if current = [] then [] else [current]

theorem wordsFrom_nil (current : Text) (quote : Option Char) :
    wordsFrom current quote [] = kept current := rfl

theorem wordsFrom_plain (hspace : isSpace ch = false) (hquote : ¬ IsQuote ch) (current : Text) :
    wordsFrom current none (ch :: rest) = wordsFrom (current ++ [ch]) none rest := by
  obtain ⟨hsingle, hdouble⟩ := not_or.mp hquote
  simp [wordsFrom, hspace, hsingle, hdouble]

theorem wordsFrom_quote (hquote : IsQuote quote) (current : Text) :
    wordsFrom current none (quote :: rest) = wordsFrom current (some quote) rest := by
  have hany : quote = singleQuote ∨ quote = doubleQuote := hquote
  simp [wordsFrom, hany]

/-- Inside a quote every other character is kept as it is. -/
theorem wordsFrom_inside (hinside : quote ∉ inside) (current : Text) :
    wordsFrom current (some quote) (inside ++ rest)
      = wordsFrom (current ++ inside) (some quote) rest := by
  induction inside generalizing current with
  | nil => simp
  | cons ch inside ih =>
      rw [List.mem_cons, not_or] at hinside
      rw [List.cons_append, wordsFrom]
      simp [hinside.1, ih hinside.2]

theorem wordsFrom_close (hquote : IsQuote quote) (current : Text) :
    wordsFrom current (some quote) (quote :: rest) = wordsFrom current none rest := by
  have hany : quote = singleQuote ∨ quote = doubleQuote := hquote
  simp [wordsFrom, hany]

theorem wordsFrom_word (hword : IsWord false text content) (current : Text) :
    wordsFrom current none (text ++ rest) = wordsFrom (current ++ content) none rest := by
  generalize hopened : false = opened at hword
  induction hword generalizing current rest with
  | plain hspace hquote => exact wordsFrom_plain hspace hquote current
  | quoted hquote hinside =>
      rw [List.cons_append, wordsFrom_quote hquote, List.append_assoc, wordsFrom_inside hinside]
      exact wordsFrom_close hquote _
  | unclosed => cases hopened
  | join _ _ ih ih' =>
      rw [List.append_assoc, ih _ rfl, ih' _ hopened, List.append_assoc]

theorem wordsFrom_unclosed (hword : IsWord true text content) (current : Text) :
    wordsFrom current none text = kept (current ++ content) := by
  generalize hopened : true = opened at hword
  induction hword generalizing current with
  | plain => cases hopened
  | quoted => cases hopened
  | @unclosed quote inside hquote hinside =>
      have hrun : wordsFrom current (some quote) (inside ++ [])
          = wordsFrom (current ++ inside) (some quote) [] := wordsFrom_inside hinside current
      rw [List.append_nil] at hrun
      rw [wordsFrom_quote hquote, hrun, wordsFrom_nil]
  | join hfirst _ _ ih' => rw [wordsFrom_word hfirst, ih' _ hopened, List.append_assoc]

theorem wordsFrom_blanks (hrun : IsBlanks run) (current : Text) :
    wordsFrom current none (run ++ rest) = kept current ++ wordsFrom [] none rest := by
  obtain ⟨hne, hall⟩ := hrun
  induction run generalizing current with
  | nil => exact absurd rfl hne
  | cons ch run ih =>
      have hspace := hall ch List.mem_cons_self
      obtain ⟨hsingle, hdouble⟩ := not_or.mp (not_isQuote_of_isSpace hspace)
      have hstep : wordsFrom current none (ch :: (run ++ rest))
          = kept current ++ wordsFrom [] none (run ++ rest) := by
        by_cases hcurrent : current = [] <;>
          simp [wordsFrom, kept, hspace, hsingle, hdouble, hcurrent]
      rw [List.cons_append, hstep]
      cases run with
      | nil => rfl
      | cons next run =>
          have hall' : ∀ ch ∈ next :: run, isSpace ch = true :=
            fun ch hch => hall ch (List.mem_cons_of_mem _ hch)
          rw [ih [] (List.cons_ne_nil next run) hall']
          rfl

/-- The words of a line are the contents that are not empty, behind the word so far. -/
theorem Reads.wordsFrom {side : Side} (hreads : Reads side input contents) :
    match side with
    | .word => wordsFrom [] none input = contents.filter (· ≠ [])
    | .blanks => ∀ current, wordsFrom current none input = kept current ++ contents.filter (· ≠ []) := by
  have hkept : ∀ (content : Text) (contents : List Text),
      kept content ++ contents.filter (· ≠ []) = (content :: contents).filter (· ≠ []) := by
    intro content contents
    by_cases hcontent : content = [] <;> simp [kept, hcontent]
  induction hreads with
  | done side =>
      cases side with
      | word => rfl
      | blanks => exact fun current => (List.append_nil _).symm
  | blanks hrun _ ih =>
      intro current
      rw [wordsFrom_blanks hrun, ih]
  | word hword _ ih => rw [wordsFrom_word hword, ih, List.nil_append, hkept]
  | @unclosed text content hword =>
      rw [wordsFrom_unclosed hword, List.nil_append, ← hkept, List.filter_nil, List.append_nil]

theorem words_of_lineReads (hreads : LineReads input contents) :
    words input = contents.filter (· ≠ []) := by
  obtain ⟨side, hreads⟩ := hreads
  cases side with
  | word => exact hreads.wordsFrom
  | blanks => exact hreads.wordsFrom []

/-! ### Quoting -/

/-- The words, each in a quote that it does not contain, with blanks in between. -/
inductive Joined : List Text → Text → Prop
  | nil : Joined [] []
  | last {quote : Char} {word : Text} (hquote : IsQuote quote) (hword : quote ∉ word) :
      Joined [word] (quote :: (word ++ [quote]))
  | cons {quote : Char} {word gap text : Text} {ws : List Text} (hquote : IsQuote quote)
      (hword : quote ∉ word) (hgap : IsBlanks gap) (hne : ws ≠ []) (hrest : Joined ws text) :
      Joined (word :: ws) (quote :: (word ++ [quote]) ++ (gap ++ text))

theorem Joined.reads (hjoined : Joined ws text) : Reads .word text ws := by
  induction hjoined with
  | nil => exact .done .word
  | last hquote hword =>
      have hreads := Reads.word (.quoted hquote hword) (.done .blanks)
      rwa [List.append_nil] at hreads
  | cons hquote hword hgap _ _ ih => exact .word (.quoted hquote hword) (.blanks hgap ih)

/-- A word without both quotes can be quoted. -/
theorem exists_joined (hgap : IsBlanks gap)
    (hquotes : ∀ word ∈ ws, ¬ (singleQuote ∈ word ∧ doubleQuote ∈ word)) :
    ∃ text, Joined ws text := by
  induction ws with
  | nil => exact ⟨[], .nil⟩
  | cons word ws ih =>
      obtain ⟨hword, hrest⟩ := List.forall_mem_cons.mp hquotes
      obtain ⟨quote, hquote, hnot⟩ : ∃ quote, IsQuote quote ∧ quote ∉ word := by
        by_cases hsingle : singleQuote ∈ word
        · exact ⟨doubleQuote, Or.inr rfl, fun hdouble => hword ⟨hsingle, hdouble⟩⟩
        · exact ⟨singleQuote, Or.inl rfl, hsingle⟩
      obtain ⟨text, htext⟩ := ih hrest
      cases ws with
      | nil => exact ⟨_, .last hquote hnot⟩
      | cons next ws => exact ⟨_, .cons hquote hnot hgap (List.cons_ne_nil next ws) htext⟩

/-- Every line can be read, and however it is read, the words are the contents that are not empty. Words
that are quoted and joined are found again. -/
theorem words_grammar :
    (∀ input, ∃ contents, LineReads input contents) ∧
      (∀ input contents, LineReads input contents →
        words input = contents.filter (· ≠ [])) ∧
      ∀ ws : List Text, (∀ word ∈ ws, word ≠ []) →
        (∀ gap, IsBlanks gap → (∀ word ∈ ws, ¬ (singleQuote ∈ word ∧ doubleQuote ∈ word)) →
          ∃ text, Joined ws text) ∧
        ∀ text, Joined ws text → words text = ws := by
  refine ⟨exists_lineReads, fun _ _ => words_of_lineReads, fun ws hne => ⟨?_, ?_⟩⟩
  · exact fun gap hgap => exists_joined hgap
  · intro text hjoined
    rw [words_of_lineReads ⟨.word, hjoined.reads⟩, List.filter_eq_self]
    exact fun word hword => decide_eq_true (hne word hword)

theorem words_grammar_quoted :
    ∃ text, Joined ["print".toList, "a b".toList] text ∧
      words text = ["print".toList, "a b".toList] := by
  have hjoined := words_grammar.2.2 ["print".toList, "a b".toList] (by decide)
  have hgap : IsBlanks [' '] := ⟨by decide, List.forall_mem_singleton.mpr rfl⟩
  obtain ⟨text, htext⟩ := hjoined.1 [' '] hgap (by decide)
  exact ⟨text, htext, hjoined.2 text htext⟩

end Cosy
