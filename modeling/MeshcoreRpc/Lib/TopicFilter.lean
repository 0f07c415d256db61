import Mathlib.Data.List.Basic

/-!
# MQTT topics and topic filters

A topic is a sequence of levels between slashes.  In a filter a level `+` stands
for any one level and a last level `#` for all that follow; neither may stand in
a topic that is published to.
-/

namespace TopicFilter

def levels (topic : String) : List String := (topic.toList.splitOn '/').map String.ofList

def matchLevels : List String → List String → Bool
  | [], ms => ms.isEmpty
  | l :: ls, ms =>
    (l == "#" && ls.isEmpty) ||
      match ms with
      | m :: ms => (l == "+" || l == m) && matchLevels ls ms
      | [] => false

@[simp] theorem matchLevels_nil : matchLevels [] [] = true := rfl

theorem matchLevels_cons_self (l : String) (ls ms : List String) :
    matchLevels (l :: ls) (l :: ms) = (l == "#" && ls.isEmpty || matchLevels ls ms) := by
  simp [matchLevels]

theorem matchLevels_plus (m : String) (ls ms : List String) :
    matchLevels ("+" :: ls) (m :: ms) = matchLevels ls ms := by
  simp [matchLevels]

/-- The filter matches the topic. -/
def Matches (filter topic : String) : Prop := matchLevels (levels filter) (levels topic) = true

instance (filter topic : String) : Decidable (Matches filter topic) :=
  inferInstanceAs (Decidable (_ = true))

/-- The characters that a topic published to may not contain. -/
def reserved : List Char := ['+', '#', Char.ofNat 0]

/-- The three characters are tried, not every character there is. -/
instance (P : Char → Prop) [DecidablePred P] : Decidable (∀ c ∈ reserved, P c) :=
  List.decidableBAll P reserved

def Publishable (topic : String) : Prop := topic ≠ "" ∧ ∀ c ∈ reserved, c ∉ topic.toList

instance (topic : String) : Decidable (Publishable topic) := inferInstanceAs (Decidable (_ ∧ _))

/-- The string is one level. -/
def OneLevel (s : String) : Prop := '/' ∉ s.toList

instance (s : String) : Decidable (OneLevel s) := inferInstanceAs (Decidable (_ ∉ _))

theorem levels_of_oneLevel {s : String} (h : OneLevel s) : levels s = [s] := by
  rw [levels, List.splitOn_eq_singleton h, List.map_singleton, String.ofList_toList]

theorem levels_cons {s : String} (h : OneLevel s) (rest : String) :
    levels (s ++ ("/" ++ rest)) = s :: levels rest := by
  have hlist : (s ++ ("/" ++ rest)).toList = s.toList ++ '/' :: rest.toList := by simp
  rw [levels, hlist, List.splitOn_append_cons_self_of_not_mem h, List.map_cons,
    String.ofList_toList,
    levels]

theorem reserved_append {c : Char} {s t : String} :
    c ∉ (s ++ t).toList ↔ c ∉ s.toList ∧ c ∉ t.toList := by
  rw [String.toList_append, List.mem_append, not_or]

end TopicFilter
