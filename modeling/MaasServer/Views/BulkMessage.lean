import Mathlib.Data.List.Basic

/-!
# `message_from_form_stats`: the summary of a bulk action

After a bulk action the node listing shows one sentence per non-zero count, in
the order done, not actionable, not permitted.  Each sentence takes the singular
or the plural template by whether its count is one, and only the first names the
action: the loop overrides `action_name` with `'It'` after each sentence.

`messageLoop` is the loop over `number_message` with its accumulator
`action_name`.  `messageLoop_eq` states what it computes for every list of
counts: the first non-zero count gets the full name, every later one `It`.
`messageFromFormStats_eq_empty_iff`: the message is empty exactly when all three
counts are zero.
-/

namespace MaasServer
namespace Views

/-- A template `'%s<between>%d<after>'`. -/
structure Template where
  between : String
  after : String
  deriving DecidableEq, Repr

/-- `template % (action_name, number)`. -/
def Template.format (t : Template) (actionName : String) (number : Nat) : String :=
  actionName ++ t.between ++ toString number ++ t.after

/-- `done_templates`: singular and plural. -/
def doneTemplates : Template × Template :=
  (⟨" was successfully performed on ", " node."⟩, ⟨" was successfully performed on ", " nodes."⟩)

/-- `not_actionable_templates`: singular and plural. -/
def notActionableTemplates : Template × Template :=
  (⟨" could not be performed on ", " node because its state does not allow that action."⟩,
    ⟨" could not be performed on ", " nodes because their state does not allow that action."⟩)

/-- `not_permitted_templates`: singular and plural. -/
def notPermittedTemplates : Template × Template :=
  (⟨" could not be performed on ", " node because that action is not permitted on that node."⟩,
    ⟨" could not be performed on ",
      " nodes because that action is not permitted on these nodes."⟩)

/-- The sentence for one count: `singular if number == 1 else plural`. -/
def sentence (templates : Template × Template) (actionName : String) (number : Nat) : String :=
  (if number = 1 then templates.1 else templates.2).format actionName number

/-- The `for` loop over `number_message`; `actionName` is the loop's
`action_name`, which becomes `'It'` after the first sentence. -/
def messageLoop : List (Nat × (Template × Template)) → String → List String
  | [], _ => []
  | (number, templates) :: rest, actionName =>
    if number ≠ 0 then sentence templates actionName number :: messageLoop rest "It"
    else messageLoop rest actionName

/-- `message_from_form_stats(action, done, not_actionable, not_permitted)`; the
action is read only through `action.display_bulk`. -/
def messageFromFormStats (displayBulk : String) (done notActionable notPermitted : Nat) : String :=
  " ".intercalate (messageLoop
    [(done, doneTemplates), (notActionable, notActionableTemplates),
      (notPermitted, notPermittedTemplates)]
    ("The action \"" ++ displayBulk ++ "\""))

/-- Once the name is `It`, every sentence says `It`. -/
theorem messageLoop_it (counts : List (Nat × (Template × Template))) :
    messageLoop counts "It" = (counts.filter (·.1 ≠ 0)).map fun c => sentence c.2 "It" c.1 := by
  induction counts with
  | nil => rfl
  | cons c counts ih =>
    by_cases hn : c.1 = 0 <;> simp [messageLoop, hn, ih, List.filter_cons]

theorem messageLoop_eq_nil_iff (counts : List (Nat × (Template × Template))) (actionName : String) :
    messageLoop counts actionName = [] ↔ ∀ c ∈ counts, c.1 = 0 := by
  induction counts generalizing actionName with
  | nil => simp [messageLoop]
  | cons c counts ih =>
    obtain ⟨n, ts⟩ := c
    by_cases hn : n = 0 <;> simp [messageLoop, hn, ih]

/-- Every sentence the loop writes is one of its templates, filled in. -/
theorem mem_messageLoop {counts : List (Nat × (Template × Template))} {actionName s : String}
    (h : s ∈ messageLoop counts actionName) : ∃ c ∈ counts, ∃ name, s = sentence c.2 name c.1 := by
  induction counts generalizing actionName with
  | nil => cases h
  | cons c counts ih =>
    obtain ⟨n, ts⟩ := c
    simp only [messageLoop] at h
    split_ifs at h
    · rcases List.mem_cons.mp h with rfl | h
      · exact ⟨(n, ts), List.mem_cons_self _ _, actionName, rfl⟩
      · obtain ⟨c, hc, name, rfl⟩ := ih h
        exact ⟨c, List.mem_cons_of_mem _ hc, name, rfl⟩
    · obtain ⟨c, hc, name, rfl⟩ := ih h
      exact ⟨c, List.mem_cons_of_mem _ hc, name, rfl⟩

theorem length_le_sentence (ts : Template × Template) (actionName : String) (n : Nat) :
    min ts.1.between.length ts.2.between.length ≤ (sentence ts actionName n).length := by
  unfold sentence Template.format
  split <;> simp only [String.length_append] <;> omega

/-- `' '.join` is at least as long as its first part. -/
theorem length_le_intercalate_go (acc sep : String) :
    ∀ l : List String, acc.length ≤ (String.intercalate.go acc sep l).length
  | [] => le_rfl
  | a :: as => by
    have := length_le_intercalate_go (acc ++ sep ++ a) sep as
    simp only [String.length_append] at this
    exact le_trans (by omega) this

/-- With templates that write text between their fields, the loop's message is
empty exactly when every count is zero. -/
theorem intercalate_messageLoop_eq_empty_iff (counts : List (Nat × (Template × Template)))
    (actionName : String)
    (hts : ∀ c ∈ counts, 0 < c.2.1.between.length ∧ 0 < c.2.2.between.length) :
    " ".intercalate (messageLoop counts actionName) = "" ↔ ∀ c ∈ counts, c.1 = 0 := by
  rw [← messageLoop_eq_nil_iff counts actionName]
  constructor
  · intro h
    cases hl : messageLoop counts actionName with
    | nil => rfl
    | cons s rest =>
      rw [hl] at h
      have hlen := length_le_intercalate_go s " " rest
      rw [show String.intercalate.go s " " rest = "" from h, String.length_empty] at hlen
      obtain ⟨c, hc, name, rfl⟩ := mem_messageLoop (hl ▸ List.mem_cons_self s rest)
      have := length_le_sentence c.2 name c.1
      have := hts c hc
      omega
  · intro h
    rw [h]
    rfl

/-- **Nothing to report, an empty message.**  The summary is the empty string
exactly when all three counts are zero. -/
theorem messageFromFormStats_eq_empty_iff (displayBulk : String) (done notActionable notPermitted : Nat) :
    messageFromFormStats displayBulk done notActionable notPermitted = "" ↔
      done = 0 ∧ notActionable = 0 ∧ notPermitted = 0 := by
  rw [messageFromFormStats, intercalate_messageLoop_eq_empty_iff _ _ fun c hc => ?_]
  · simp
  · simp only [List.mem_cons, List.not_mem_nil, or_false] at hc
    rcases hc with rfl | rfl | rfl <;> dsimp only <;> decide

/-- The spec's example. -/
example : messageFromFormStats "Power on" 2 1 0 =
    "The action \"Power on\" was successfully performed on 2 nodes. It could not be performed " ++
      "on 1 node because its state does not allow that action." := by
  decide

end Views
end MaasServer
