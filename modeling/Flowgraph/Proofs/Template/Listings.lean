import Mathlib.Data.List.Nodup
import Mathlib.Data.List.Permutation
import Mathlib.Data.String.Basic
import Flowgraph.Proofs.Saved.Settings
import Flowgraph.Proofs.Text.ByteOrder

namespace Flowgraph

theorem pairwise_le_mergeSort {α : Type} (key : α → String) (items : List α) :
    (items.mergeSort fun a b => key a ≤ key b).Pairwise fun a b => key a ≤ key b := by
  let below (a b : α) : Bool := key a ≤ key b
  have transitive (a b c : α) (first : below a b = true) (second : below b c = true) :
      below a c = true :=
    decide_eq_true (String.le_trans (of_decide_eq_true first) (of_decide_eq_true second))
  have total (a b : α) : (below a b || below b a) = true := by
    simpa [below] using String.le_total (key a) (key b)
  exact (List.pairwise_mergeSort transitive total items).imp of_decide_eq_true

/-- Sorted by keys that are all different, a list ascends strictly. -/
theorem pairwise_lt_mergeSort {α : Type} (key : α → String) {items : List α}
    (distinct : (items.map key).Nodup) :
    (items.mergeSort fun a b => key a ≤ key b).Pairwise fun a b => key a < key b := by
  have perm := List.mergeSort_perm items fun a b => key a ≤ key b
  have apart := List.pairwise_map.mp ((perm.map key).nodup_iff.mpr distinct)
  exact (pairwise_le_mergeSort key items).imp₂ (fun _ _ => lt_of_le_of_ne) apart

theorem eraseReps_loop {α : Type} [BEq α] (a : α) (rest passed : List α) :
    List.eraseRepsBy.loop (· == ·) a rest passed = passed.reverse ++ (a :: rest).eraseReps := by
  induction rest generalizing a passed with
  | nil => simp [List.eraseReps, List.eraseRepsBy, List.eraseRepsBy.loop]
  | cons b rest ih =>
    simp only [List.eraseReps, List.eraseRepsBy, List.eraseRepsBy.loop] at ih ⊢
    split
    · exact ih a passed
    · rw [ih b (a :: passed), ih b [a]]
      simp

theorem eraseReps_cons_cons {α : Type} [BEq α] (a b : α) (rest : List α) :
    (a :: b :: rest).eraseReps =
      if a == b then (a :: rest).eraseReps else a :: (b :: rest).eraseReps := by
  change List.eraseRepsBy.loop (· == ·) a (b :: rest) [] = _
  rw [List.eraseRepsBy.loop]
  cases a == b with
  | true => rfl
  | false => exact eraseReps_loop b rest [a]

theorem mem_eraseReps {α : Type} [BEq α] [LawfulBEq α] {x : α} {items : List α} :
    x ∈ items.eraseReps ↔ x ∈ items := by
  cases items with
  | nil => rfl
  | cons a rest =>
    induction rest generalizing a with
    | nil => rfl
    | cons b rest ih =>
      rw [eraseReps_cons_cons]
      split
      · rename_i same
        rw [ih, eq_of_beq same]
        simp
      · rw [List.mem_cons, ih, ← List.mem_cons]

/-- In a sorted list all repetitions stand side by side. -/
theorem pairwise_lt_eraseReps {items : List String} (sorted : items.Pairwise (· ≤ ·)) :
    items.eraseReps.Pairwise (· < ·) := by
  cases items with
  | nil => exact .nil
  | cons a rest =>
    induction rest generalizing a with
    | nil => exact List.pairwise_singleton _ _
    | cons b rest ih =>
      obtain ⟨head, tail⟩ := List.pairwise_cons.mp sorted
      rw [eraseReps_cons_cons]
      split
      · rename_i same
        exact ih a (eq_of_beq same ▸ tail)
      · rename_i different
        have less : a < b := lt_of_le_of_ne (head b List.mem_cons_self) (by simpa using different)
        refine List.pairwise_cons.mpr ⟨fun c member => ?_, ih b tail⟩
        rcases List.mem_cons.mp (mem_eraseReps.mp member) with rfl | later
        · exact less
        · exact lt_of_lt_of_le less ((List.pairwise_cons.mp tail).1 c later)

/-- The groups of a list, one for each of its keys, make up the list. -/
theorem perm_flatMap_filter {α κ : Type} [DecidableEq κ] {key : α → κ} {keys : List κ}
    {items : List α} (distinct : keys.Nodup) (covered : ∀ a ∈ items, key a ∈ keys) :
    (keys.flatMap fun k => items.filter (key · = k)).Perm items := by
  induction keys generalizing items with
  | nil =>
    have none : items = [] := List.eq_nil_iff_forall_not_mem.mpr fun a member =>
      List.not_mem_nil (covered a member)
    rw [none]
    exact .refl _
  | cons k rest ih =>
    obtain ⟨fresh, restDistinct⟩ := List.nodup_cons.mp distinct
    let others := items.filter (key · ≠ k)
    have othersCovered : ∀ a ∈ others, key a ∈ rest := by
      intro a member
      obtain ⟨inItems, apart⟩ := List.mem_filter.mp member
      exact (List.mem_cons.mp (covered a inItems)).resolve_left (of_decide_eq_true apart)
    -- the groups of the other keys have lost nothing with the first group
    have groups : (rest.flatMap fun l => items.filter (key · = l)) =
        rest.flatMap fun l => others.filter (key · = l) := by
      refine List.flatMap_congr fun l member => ?_
      have apart : l ≠ k := fun same => fresh (same ▸ member)
      rw [List.filter_filter]
      refine List.filter_congr fun a _ => ?_
      by_cases here : key a = l
      · simp [here, apart]
      · simp [here]
    rw [List.flatMap_cons, groups]
    refine ((ih restDistinct othersCovered).append_left _).trans ?_
    simpa only [others, decide_not] using List.filter_append_perm (key · = k) items

namespace Registry

open Template (Declaration)

variable {r s : Registry} {declarations : List Declaration} {name category : String} {t : Template}

/-- A store that holds each name once and each template under its own. -/
structure Filed (r : Registry) : Prop where
  once : (Dictionary.keys r.entries).Nodup
  own : ∀ entry ∈ r.entries, entry.2.name = entry.1

/-- A registered template takes the place of the one of its name, so that no name is filed twice. -/
theorem Filed.register (filed : r.Filed) (t : Template) : (r.register t).Filed := by
  constructor
  · refine List.nodup_cons.mpr ⟨fun member => ?_, filed.once.sublist (List.filter_sublist.map _)⟩
    obtain ⟨entry, kept, same⟩ := List.mem_map.mp member
    exact of_decide_eq_true (List.mem_filter.mp kept).2 same
  · intro entry member
    rcases List.mem_cons.mp member with rfl | old
    · rfl
    · exact filed.own entry (List.mem_filter.mp old).1

theorem Filed.perm (filed : r.Filed) (rearranged : s.entries.Perm r.entries) : s.Filed :=
  ⟨(rearranged.map _).nodup_iff.mpr filed.once,
    fun entry member => filed.own entry (rearranged.mem_iff.mp member)⟩

/-- What a name finds is no matter of the order. -/
theorem Filed.get?_eq (filed : r.Filed) (rearranged : s.entries.Perm r.entries) (name : String) :
    s.get? name = r.get? name := by
  refine Option.ext fun t => ?_
  rw [get?, Dictionary.get?_eq_some_iff (filed.perm rearranged).once, rearranged.mem_iff,
    ← Dictionary.get?_eq_some_iff filed.once, get?]

theorem Filed.map_name (filed : r.Filed) :
    r.templates.map (·.name) = Dictionary.keys r.entries := by
  rw [templates, List.map_map]
  exact List.map_congr_left filed.own

theorem Filed.distinct (filed : r.Filed) : (r.templates.map (·.name)).Nodup :=
  filed.map_name ▸ filed.once

/-- A template that is held is the one that its name finds. -/
theorem Filed.mem_templates (filed : r.Filed) :
    t ∈ r.templates ↔ r.get? t.name = some t := by
  rw [get?, Dictionary.get?_eq_some_iff filed.once]
  constructor
  · intro member
    obtain ⟨⟨name, held⟩, entry, rfl⟩ := List.mem_map.mp member
    have own : held.name = name := filed.own _ entry
    rwa [own]
  · exact fun entry => List.mem_map_of_mem (f := (·.2)) entry

theorem Filed.name_eq (filed : r.Filed) (found : r.get? name = some t) : t.name = name :=
  filed.own (name, t) ((Dictionary.get?_eq_some_iff filed.once).mp found)

/-- What a store may be after declarations have been registered one after the other. With each it
takes in it may put all that it holds in another order. -/
inductive Arranged : List Declaration → Registry → Prop
  | empty : Arranged [] {}
  | register {declarations : List Declaration} {r s : Registry} (d : Declaration) :
      Arranged declarations r → s.entries.Perm (r.register d.template).entries →
      Arranged (declarations ++ [d]) s

theorem Arranged.declare (arranged : Arranged declarations r) (more : List Declaration) :
    Arranged (declarations ++ more) (r.declare more) := by
  induction more generalizing declarations r with
  | nil => rwa [List.append_nil]
  | cons d rest ih =>
    rw [List.append_cons]
    exact ih (.register d arranged (.refl _))

theorem Arranged.filed (arranged : Arranged declarations r) : r.Filed := by
  induction arranged with
  | empty => exact ⟨.nil, fun _ member => absurd member List.not_mem_nil⟩
  | register d _ rearranged ih => exact (ih.register d.template).perm rearranged

/-- The template of a name is the last one declared under it. -/
theorem Arranged.get?_eq (arranged : Arranged declarations r) (name : String) :
    r.get? name = (declarations.reverse.map (·.template)).find? (·.name == name) := by
  induction arranged with
  | empty => rfl
  | register d before rearranged ih =>
    rw [(before.filed.register d.template).get?_eq rearranged, get?_register,
      List.reverse_concat, List.map_cons, List.find?_cons, ih]
    by_cases here : name = d.template.name
    · rw [if_pos here, beq_iff_eq.mpr here.symm]
    · rw [if_neg here, beq_eq_false_iff_ne.mpr (Ne.symm here)]

theorem Arranged.mem_keys (arranged : Arranged declarations r) :
    name ∈ Dictionary.keys r.entries ↔ ∃ d ∈ declarations, d.template.name = name := by
  have held : name ∈ Dictionary.keys r.entries ↔ (r.get? name).isSome := by
    rw [Option.isSome_iff_exists, Dictionary.keys, List.mem_map, Prod.exists]
    simp only [get?, Dictionary.get?_eq_some_iff arranged.filed.once, exists_and_right,
      exists_eq_right]
  rw [held, arranged.get?_eq, List.find?_isSome]
  simp only [List.mem_map, List.mem_reverse, beq_iff_eq]
  constructor
  · rintro ⟨_, ⟨d, declared, rfl⟩, own⟩
    exact ⟨d, declared, own⟩
  · rintro ⟨d, declared, own⟩
    exact ⟨_, ⟨d, declared, rfl⟩, own⟩

theorem mem_inCategory : t ∈ r.inCategory category ↔ t ∈ r.templates ∧ t.category = category := by
  rw [inCategory, List.mem_mergeSort, List.mem_filter, decide_eq_true_iff]

/-- A category is listed just if a template that is held has it. -/
theorem mem_categories : category ∈ r.categories ↔ ∃ t ∈ r.templates, t.category = category := by
  rw [categories, mem_eraseReps, List.mem_mergeSort, List.mem_map]

/-- Repetitions go because the categories are sorted before. -/
theorem categories_ascending (r : Registry) : r.categories.Pairwise (· < ·) :=
  pairwise_lt_eraseReps (pairwise_le_mergeSort id _)

/-- Category by category, a registry lists what it holds. -/
theorem perm_listing (r : Registry) : (r.categories.flatMap r.inCategory).Perm r.templates := by
  have groups : (r.categories.flatMap fun c => r.templates.filter (·.category = c)).Perm
      r.templates :=
    perm_flatMap_filter ((categories_ascending r).imp ne_of_lt) fun t member =>
      mem_categories.mpr ⟨t, member, rfl⟩
  refine (List.Perm.flatMap_left _ fun c _ => ?_).trans groups
  exact List.mergeSort_perm _ _

/-- However the templates that are held are put in order, under each name stands the one that the
name finds, once. -/
theorem Filed.filter_name (filed : r.Filed) {listed : List Template}
    (perm : listed.Perm r.templates) (name : String) :
    listed.filter (·.name == name) = (r.get? name).toList := by
  have held : r.templates.Nodup := .of_map _ filed.distinct
  have distinct := (perm.nodup_iff.mpr held).filter (·.name == name)
  have member (t : Template) : t ∈ listed.filter (·.name == name) ↔ r.get? name = some t := by
    rw [List.mem_filter, perm.mem_iff, filed.mem_templates, beq_iff_eq]
    constructor
    · rintro ⟨found, rfl⟩
      exact found
    · intro found
      have own := filed.name_eq found
      exact ⟨by rw [own, found], own⟩
  cases found : r.get? name with
  | none =>
    refine List.eq_nil_iff_forall_not_mem.mpr fun t here => ?_
    cases found.symm.trans ((member t).mp here)
  | some t =>
    refine List.perm_singleton.mp ((List.perm_ext_iff_of_nodup distinct (by simp)).mpr fun u => ?_)
    rw [member, found, Option.some.injEq, List.mem_singleton, eq_comm]

/-- Whatever is declared, under whatever names and categories again, and in whatever order the store
keeps it, a registry holds the last template of each name. Its names and categories are those of the
templates that it holds, in the order of their bytes and each once, and so are the templates of a
category by their names. Listed category by category, each template that it holds is there once. -/
theorem listings_exact (arranged : Arranged declarations r) :
    (∀ name, r.get? name = (declarations.reverse.map (·.template)).find? (·.name == name)) ∧
      r.names.Pairwise (fun a b => Utf8.bytes a < Utf8.bytes b) ∧
      (∀ name, name ∈ r.names ↔ ∃ d ∈ declarations, d.template.name = name) ∧
      r.names.length = r.size ∧
      r.categories.Pairwise (fun a b => Utf8.bytes a < Utf8.bytes b) ∧
      (∀ category, category ∈ r.categories ↔
        ∃ name t, r.get? name = some t ∧ t.category = category) ∧
      (∀ category, (r.inCategory category).Pairwise
        fun a b => Utf8.bytes a.name < Utf8.bytes b.name) ∧
      (∀ category t, t ∈ r.inCategory category ↔
        r.get? t.name = some t ∧ t.category = category) ∧
      ∀ name, (r.categories.flatMap r.inCategory).filter (·.name == name) =
        (r.get? name).toList := by
  have filed := arranged.filed
  refine ⟨arranged.get?_eq, ?_, fun name => ?_, ?_, (categories_ascending r).imp Utf8.bytes_lt,
    fun category => ?_, fun category => ?_, fun category t => ?_, ?_⟩
  · exact (pairwise_lt_mergeSort id (by simpa using filed.once)).imp Utf8.bytes_lt
  · rw [names, List.mem_mergeSort, arranged.mem_keys]
  · rw [names, List.length_mergeSort, Dictionary.keys, List.length_map, size]
  · rw [mem_categories]
    constructor
    · rintro ⟨t, held, own⟩
      exact ⟨t.name, t, filed.mem_templates.mp held, own⟩
    · rintro ⟨name, t, found, own⟩
      exact ⟨t, List.mem_map_of_mem (f := (·.2)) (Dictionary.mem_of_get? found), own⟩
  · have distinct : ((r.templates.filter (·.category = category)).map (·.name)).Nodup :=
      filed.distinct.sublist (List.filter_sublist.map _)
    exact (pairwise_lt_mergeSort Template.name distinct).imp Utf8.bytes_lt
  · rw [mem_inCategory, filed.mem_templates]
  · exact filed.filter_name (perm_listing r)

/-- The category of the first alarm is gone with it. -/
def things : List Declaration :=
  [.event "input" "Tap" [], .event "event" "Alarm" [], .event "input" "Bell" [],
    .event "alert" "Alarm" []]

/-- A store that keeps what came first in front. -/
def shuffled : Registry := ⟨((({} : Registry).declare things).entries).reverse⟩

theorem listings_exact_shuffled :
    Arranged things shuffled ∧ shuffled.templates.map (·.name) = ["Tap", "Bell", "Alarm"] ∧
      shuffled.names = ["Alarm", "Bell", "Tap"] ∧ shuffled.categories = ["alert", "input"] ∧
      (shuffled.inCategory "input").map (·.name) = ["Bell", "Tap"] ∧
      (shuffled.get? "Alarm").map (·.category) = some "alert" ∧
      shuffled.names.length = shuffled.size ∧
      ∀ name, (shuffled.categories.flatMap shuffled.inCategory).filter (·.name == name) =
        (shuffled.get? name).toList := by
  have arranged : Arranged things shuffled :=
    .register (.event "alert" "Alarm" [])
      (Arranged.empty.declare [.event "input" "Tap" [], .event "event" "Alarm" [],
        .event "input" "Bell" []]) (List.reverse_perm _)
  obtain ⟨_, _, _, length, _, _, _, _, once⟩ := listings_exact arranged
  exact ⟨arranged, rfl, by cbv, by cbv, by cbv, rfl, length, once⟩

end Registry

end Flowgraph
