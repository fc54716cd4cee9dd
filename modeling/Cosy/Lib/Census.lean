import Mathlib.Data.List.Basic

/-!
# A census kept from news

A table of parties is kept from what is heard of them: that one has stopped, that there is one,
that one has ended, that one was resumed. The news of one party comes in order, but the
announcement of a party comes from another one, at any time. What the table ought to say depends on
the news and not on their order.
-/

namespace Census

variable {κ : Type} [DecidableEq κ]

inductive News (κ : Type) where
  | stopped (key : κ)
  | announced (key : κ)
  | ended (key : κ)
  | resumed (key : κ)
deriving DecidableEq

def News.key : News κ → κ
  | .stopped key | .announced key | .ended key | .resumed key => key

def News.isEnd : News κ → Bool
  | .ended _ => true
  | _ => false

/-- What news of a party make of its entry: whether it is stopped, if it is in the table. -/
def News.change : News κ → Option Bool → Option Bool
  | .stopped _, _ => some true
  | .announced _, known => some (known.getD false)
  | .ended _, _ => none
  | .resumed _, known => known.map fun _ => false

/-- The entry of a party after the news, the newest of which come first. -/
def entryFrom (known : Option Bool) (key : κ) : List (News κ) → Option Bool
  | [] => known
  | news :: older =>
      if news.key = key then news.change (entryFrom known key older)
      else entryFrom known key older

/-- The same, if the table was empty. -/
def entry (key : κ) (history : List (News κ)) : Option Bool := entryFrom none key history

/-- Whether a party that is there is stopped: its newest stop is newer than its newest resumption. -/
def lastStopped (key : κ) : List (News κ) → Bool
  | [] => false
  | .stopped other :: older => other = key || lastStopped key older
  | .resumed other :: older => other ≠ key && lastStopped key older
  | _ :: older => lastStopped key older

/-- What the table ought to say about a party. -/
def expected (key : κ) (history : List (News κ)) : Option Bool :=
  if .ended key ∈ history then none
  else if .stopped key ∈ history ∨ .announced key ∈ history then some (lastStopped key history)
  else none

/-- After the end of a party there are no news of it but announcements. -/
def inOrder (key : κ) : List (News κ) → Bool
  | [] => true
  | news :: older =>
      inOrder key older && (.ended key ∉ older || (news ≠ .stopped key && news ≠ .ended key))

/-- The party is announced after its end. -/
def announcedLate (key : κ) : List (News κ) → Bool
  | [] => false
  | news :: older => announcedLate key older || (news = .announced key && .ended key ∈ older)

variable {known : Option Bool} {key : κ} {news : News κ} {history newer older : List (News κ)}

theorem entryFrom_append :
    entryFrom known key (newer ++ older) = entryFrom (entryFrom known key older) key newer := by
  induction newer with
  | nil => rfl
  | cons news newer ih => simp only [List.cons_append, entryFrom, ih]

theorem entryFrom_of_ne (hnews : ∀ news ∈ history, news.key ≠ key) :
    entryFrom known key history = known := by
  induction history with
  | nil => rfl
  | cons news older ih =>
      rw [entryFrom, if_neg (hnews news List.mem_cons_self)]
      exact ih fun news hmem => hnews news (List.mem_cons_of_mem _ hmem)

theorem ended_mem_of_announcedLate (hlate : announcedLate key history = true) :
    .ended key ∈ history := by
  induction history with
  | nil => cases hlate
  | cons news older ih =>
      rw [announcedLate, Bool.or_eq_true, Bool.and_eq_true, decide_eq_true_eq,
        decide_eq_true_eq] at hlate
      rcases hlate with hlate | ⟨-, hended⟩
      · exact List.mem_cons_of_mem _ (ih hlate)
      · exact List.mem_cons_of_mem _ hended

theorem stopped_mem_of_lastStopped (hlast : lastStopped key history = true) :
    .stopped key ∈ history := by
  induction history with
  | nil => cases hlast
  | cons news older ih =>
      cases news with
      | stopped other =>
          rw [lastStopped, Bool.or_eq_true, decide_eq_true_eq] at hlast
          rcases hlast with rfl | hlast
          · exact List.mem_cons_self
          · exact List.mem_cons_of_mem _ (ih hlast)
      | resumed other =>
          rw [lastStopped, Bool.and_eq_true] at hlast
          exact List.mem_cons_of_mem _ (ih hlast.2)
      | announced other | ended other => exact List.mem_cons_of_mem _ (ih hlast)

theorem expected_cons_of_ne (hne : news.key ≠ key) :
    expected key (news :: older) = expected key older := by
  have hmem : ∀ own : News κ, own.key = key → (own ∈ news :: older ↔ own ∈ older) := by
    rintro own rfl
    rw [List.mem_cons, or_iff_right]
    rintro rfl
    exact hne rfl
  have hlast : lastStopped key (news :: older) = lastStopped key older := by
    cases news with
    | stopped other | resumed other =>
        have hother : other ≠ key := hne
        simp [lastStopped, hother]
    | announced other | ended other => rfl
  rw [expected, expected, hlast]
  simp only [hmem (.ended key) rfl, hmem (.stopped key) rfl, hmem (.announced key) rfl]

/-- As long as a party has not ended, the table is right about it. -/
theorem entry_of_not_ended (hended : .ended key ∉ history) :
    entry key history = expected key history := by
  induction history with
  | nil => rfl
  | cons news older ih =>
      have holder : .ended key ∉ older := fun hmem => hended (List.mem_cons_of_mem _ hmem)
      have hentry : entry key (news :: older)
          = if news.key = key then news.change (entry key older) else entry key older := rfl
      rw [hentry, ih holder]
      by_cases hkey : news.key = key
      · rw [if_pos hkey]
        cases news with
        | stopped other =>
            obtain rfl : other = key := hkey
            simp [expected, hended, News.change, lastStopped]
        | announced other =>
            obtain rfl : other = key := hkey
            by_cases hpresent : .stopped other ∈ older ∨ .announced other ∈ older
            · simp [expected, holder, News.change, lastStopped, hpresent]
            · have hlast : lastStopped other older = false := by
                rw [← Bool.not_eq_true]
                exact fun hlast => hpresent (Or.inl (stopped_mem_of_lastStopped hlast))
              simp [expected, holder, News.change, lastStopped, hpresent, hlast]
        | ended other =>
            obtain rfl : other = key := hkey
            exact absurd List.mem_cons_self hended
        | resumed other =>
            obtain rfl : other = key := hkey
            by_cases hpresent : .stopped other ∈ older ∨ .announced other ∈ older
            · simp [expected, holder, News.change, lastStopped, hpresent]
            · simp [expected, holder, News.change, hpresent]
      · rw [if_neg hkey, expected_cons_of_ne hkey]

/-- The table is right about a party at its end, too. -/
theorem entry_cons (holder : .ended key ∉ older) :
    entry key (news :: older) = expected key (news :: older) := by
  by_cases hnews : news = .ended key
  · rw [expected, if_pos (hnews ▸ List.mem_cons_self), entry, entryFrom, hnews]
    exact if_pos rfl
  · refine entry_of_not_ended fun hmem => ?_
    rcases List.mem_cons.mp hmem with heq | hmem
    · exact hnews heq.symm
    · exact holder hmem

/-- A party that has ended is in the table exactly if it was announced after that. -/
theorem entry_of_ended (horder : inOrder key history = true) (hended : .ended key ∈ history) :
    entry key history = if announcedLate key history = true then some false else none := by
  induction history with
  | nil => cases hended
  | cons news older ih =>
      rw [inOrder, Bool.and_eq_true] at horder
      have hentry : entry key (news :: older)
          = if news.key = key then news.change (entry key older) else entry key older := rfl
      by_cases holder : .ended key ∈ older
      · have hnews : news ≠ .stopped key ∧ news ≠ .ended key := by simpa [holder] using horder.2
        rw [hentry, ih horder.1 holder]
        cases news with
        | stopped other =>
            have hne : other ≠ key := by
              rintro rfl
              exact hnews.1 rfl
            simp [News.key, announcedLate, hne]
        | announced other =>
            by_cases heq : other = key
            · by_cases hlate : announcedLate key older = true <;>
                simp [News.key, News.change, announcedLate, heq, holder, hlate]
            · simp [News.key, announcedLate, heq]
        | ended other =>
            have hne : other ≠ key := by
              rintro rfl
              exact hnews.2 rfl
            simp [News.key, announcedLate, hne]
        | resumed other =>
            by_cases heq : other = key
            · by_cases hlate : announcedLate key older = true <;>
                simp [News.key, News.change, announcedLate, heq, hlate]
            · simp [News.key, announcedLate, heq]
      · have hnews : news = .ended key := ((List.mem_cons.mp hended).resolve_right holder).symm
        have hlate : announcedLate key older = false := by
          rw [← Bool.not_eq_true]
          exact fun hlate => holder (ended_mem_of_announcedLate hlate)
        rw [hentry, hnews]
        simp [News.key, News.change, announcedLate, hlate]

/-- The table says what it ought to say about a party unless the party is announced after its
end. -/
theorem entry_eq_expected_iff (horder : inOrder key history = true) :
    entry key history = expected key history ↔ announcedLate key history = false := by
  by_cases hended : .ended key ∈ history
  · rw [entry_of_ended horder hended, expected, if_pos hended]
    cases announcedLate key history <;> simp
  · refine iff_of_true (entry_of_not_ended hended) ?_
    rw [← Bool.not_eq_true]
    exact fun hlate => hended (ended_mem_of_announcedLate hlate)

end Census
