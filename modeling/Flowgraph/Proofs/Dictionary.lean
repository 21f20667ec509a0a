import Flowgraph.Dictionary

namespace Flowgraph.Dictionary

variable {α : Type} {key other : String} {value : α} {entries : List (String × α)}

theorem get?_cons (key : String) (value : α) (entries : List (String × α)) (other : String) :
    get? ((key, value) :: entries) other =
      if other = key then some value else get? entries other := by
  unfold get?
  rw [List.lookup_cons]
  by_cases same : other = key
  · subst same
    simp
  · simp [same, beq_eq_false_iff_ne.mpr same]

/-- An insertion is seen under its own key and nowhere else. -/
theorem get?_insert (key : String) (value : α) (entries : List (String × α)) (other : String) :
    get? (insert key value entries) other =
      if other = key then some value else get? entries other := by
  induction entries with
  | nil => exact get?_cons key value [] other
  | cons entry rest ih =>
    obtain ⟨k, v⟩ := entry
    unfold insert
    split
    · exact get?_cons key value _ other
    · split
      · rename_i same
        subst same
        rw [get?_cons, get?_cons]
        split <;> rfl
      · rename_i different
        rw [get?_cons, get?_cons, ih]
        by_cases here : other = k
        · subst here
          simp [Ne.symm different]
        · simp [here]

theorem get?_erase (key : String) (entries : List (String × α)) (other : String) :
    get? (erase key entries) other = if other = key then none else get? entries other := by
  unfold erase
  induction entries with
  | nil => exact (ite_self _).symm
  | cons entry rest ih =>
    obtain ⟨k, v⟩ := entry
    by_cases same : k = key
    · rw [List.filter_cons_of_neg (by simpa using same), ih, get?_cons, same]
      split <;> rfl
    · rw [List.filter_cons_of_pos (by simpa using same), get?_cons, ih, get?_cons]
      by_cases here : other = k
      · rw [if_pos here, if_neg (here ▸ same), if_pos here]
      · simp only [here, if_false]

theorem last?_cons (entry : String × α) (entries : List (String × α)) (key : String) :
    last? (entry :: entries) key =
      (last? entries key).or (if key = entry.1 then some entry.2 else none) := by
  have single : [entry].lookup key = if key = entry.1 then some entry.2 else none :=
    get?_cons entry.1 entry.2 [] key
  unfold last?
  rw [List.reverse_cons, List.lookup_append, single]

/-- Collected entries hold the last value of each key. -/
theorem get?_ofList (entries : List (String × α)) (key : String) :
    get? (ofList entries) key = last? entries key := by
  have collected (start : List (String × α)) :
      get? (entries.foldl (fun dictionary entry => insert entry.1 entry.2 dictionary) start) key =
        (last? entries key).or (get? start key) := by
    induction entries generalizing start with
    | nil => rfl
    | cons entry rest ih =>
      rw [List.foldl_cons, ih, get?_insert, last?_cons]
      cases last? rest key with
      | some _ => rfl
      | none =>
        simp only [Option.none_or]
        split <;> rfl
  rw [ofList, collected []]
  exact Option.or_none

theorem mem_of_get? (found : get? entries key = some value) : (key, value) ∈ entries := by
  induction entries with
  | nil => cases found
  | cons entry rest ih =>
    obtain ⟨k, v⟩ := entry
    rw [get?_cons] at found
    split at found
    · rename_i same
      cases found
      exact same ▸ List.mem_cons_self
    · exact List.mem_cons_of_mem _ (ih found)

/-- Where no key is repeated, each entry is the one that is found. -/
theorem get?_eq_some_iff (once : (keys entries).Nodup) :
    get? entries key = some value ↔ (key, value) ∈ entries := by
  refine ⟨mem_of_get?, fun member => ?_⟩
  induction entries with
  | nil => cases member
  | cons entry rest ih =>
    obtain ⟨fresh, restOnce⟩ := List.nodup_cons.mp once
    rw [get?_cons]
    rcases List.mem_cons.mp member with rfl | later
    · exact if_pos rfl
    · have listed : key ∈ keys rest := List.mem_map_of_mem later
      have apart : key ≠ entry.1 := by
        rintro rfl
        exact fresh listed
      rw [if_neg apart]
      exact ih restOnce later

theorem Sorted.nodup_keys (sorted : Sorted entries) : (keys entries).Nodup := by
  refine List.pairwise_map.mpr (sorted.imp fun {a b} below same => ?_)
  rw [same] at below
  exact String.lt_irrefl _ below

theorem Sorted.get?_of_mem (sorted : Sorted entries) (member : (key, value) ∈ entries) :
    get? entries key = some value :=
  (get?_eq_some_iff sorted.nodup_keys).mpr member

/-- Of the collected entries the last of each key is kept, and nothing else. -/
theorem mem_ofList : (key, value) ∈ ofList entries ↔ last? entries key = some value := by
  rw [← get?_ofList]
  exact ⟨(sorted_ofList entries).get?_of_mem, mem_of_get?⟩

theorem mem_of_mem_ofList {entry : String × α} (member : entry ∈ ofList entries) :
    entry ∈ entries := by
  have found : entries.reverse.lookup entry.1 = some entry.2 := mem_ofList.mp member
  exact List.mem_reverse.mp (mem_of_get? found)

/-- A key above all others goes to the end. -/
theorem insert_of_above (above : ∀ entry ∈ entries, entry.1 < key) :
    insert key value entries = entries ++ [(key, value)] := by
  induction entries with
  | nil => rfl
  | cons entry rest ih =>
    obtain ⟨k, v⟩ := entry
    have below : k < key := above _ List.mem_cons_self
    have notLess : ¬ key < k := fun less => String.lt_irrefl k (String.lt_trans below less)
    have apart : key ≠ k := fun same => String.lt_irrefl k (same ▸ below)
    rw [insert, if_neg notLess, if_neg apart, ih fun entry member =>
      above entry (List.mem_cons_of_mem _ member)]
    rfl

/-- Collecting changes nothing of entries that are a dictionary already. -/
theorem ofList_of_sorted (sorted : Sorted entries) : ofList entries = entries := by
  have appended (start : List (String × α)) (sorted : Sorted (start ++ entries)) :
      entries.foldl (fun dictionary entry => insert entry.1 entry.2 dictionary) start =
        start ++ entries := by
    induction entries generalizing start with
    | nil => rw [List.foldl_nil, List.append_nil]
    | cons entry rest ih =>
      have above : ∀ old ∈ start, old.1 < entry.1 := fun old member =>
        (List.pairwise_append.mp sorted).2.2 old member entry List.mem_cons_self
      rw [List.append_cons] at sorted
      rw [List.foldl_cons, insert_of_above above, ih (List.pairwise_append.mp sorted).2.1 _ sorted,
        ← List.append_cons]
  exact appended [] sorted

theorem last?_of_sorted (sorted : Sorted entries) (key : String) :
    last? entries key = get? entries key := by
  rw [← get?_ofList, ofList_of_sorted sorted]

end Flowgraph.Dictionary
