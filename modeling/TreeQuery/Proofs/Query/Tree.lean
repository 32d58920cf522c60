import TreeQuery.Proofs.Names
import TreeQuery.Query.Parse

/-!
# Trees of relations

Three views of a query tree, and the induction that goes with them.

* `Relation.nodes` lists the nodes of a tree from the top, each node before those nested in it.
* `Relation.allBindings` lists the values bound in a tree, in the same order.
* `Relation.skeleton` is the tree without its values: all that the text of a query decides.

All are read off a node and its nested relations; the last two are followed here through the
operations by which a tree is built, `attach` and `addAttribute`.
-/

namespace TreeQuery

open List

namespace Query
namespace Relation

/-! ## Induction -/

mutual

/-- **Induction over a tree**: what holds of a node whenever it holds of the relations nested in it
holds of every node. -/
theorem nested_induction {P : Relation → Prop} (step : ∀ r, (∀ c ∈ r.relations, P c) → P r) :
    ∀ r, P r
  | ⟨type, table, sql, bindings, attributes, relations⟩ =>
    step ⟨type, table, sql, bindings, attributes, relations⟩ (nested_all step relations)

theorem nested_all {P : Relation → Prop} (step : ∀ r, (∀ c ∈ r.relations, P c) → P r) :
    ∀ rs : List Relation, ∀ c ∈ rs, P c
  | [], _, hc => absurd hc not_mem_nil
  | r :: rs, c, hc => by
    rcases mem_cons.mp hc with h | hc
    · rw [h]
      exact nested_induction step r
    · exact nested_all step rs c hc

end

/-! ## The nodes of a tree -/

mutual

/-- **The nodes of a tree**: a node before the nodes nested in it. -/
def nodes : Relation → List Relation
  | ⟨type, table, sql, bindings, attributes, relations⟩ =>
    ⟨type, table, sql, bindings, attributes, relations⟩ :: nodesOf relations

/-- The nodes of trees that stand one after the other. -/
def nodesOf : List Relation → List Relation
  | [] => []
  | r :: rest => r.nodes ++ nodesOf rest

end

variable (r : Relation)

theorem nodes_eq : r.nodes = r :: nodesOf r.relations := by
  cases r
  rw [nodes]

theorem mem_nodesOf {rs : List Relation} {n : Relation} :
    n ∈ nodesOf rs ↔ ∃ r ∈ rs, n ∈ r.nodes := by
  induction rs with
  | nil => simp [nodesOf]
  | cons r rs ih => simp [nodesOf, ih]

/-- A node of a node of a tree is a node of the tree. -/
theorem mem_nodes_trans {r m n : Relation} (hm : m ∈ r.nodes) (hn : n ∈ m.nodes) : n ∈ r.nodes := by
  induction r using nested_induction with
  | step r ih =>
    rw [nodes_eq] at hm
    rcases mem_cons.mp hm with rfl | hm
    · exact hn
    · obtain ⟨c, hc, hm⟩ := mem_nodesOf.mp hm
      rw [nodes_eq]
      exact mem_cons_of_mem _ (mem_nodesOf.mpr ⟨c, hc, ih c hc hm⟩)

/-! ## The values bound in a tree -/

mutual

/-- **The values bound in a tree**: those of a node before those of the nodes nested in it. -/
def allBindings : Relation → List Value
  | ⟨_, _, _, bindings, _, relations⟩ => bindings ++ bindingsOf relations

/-- The values bound in trees that stand one after the other. -/
def bindingsOf : List Relation → List Value
  | [] => []
  | r :: rest => r.allBindings ++ bindingsOf rest

end

theorem allBindings_eq : r.allBindings = r.bindings ++ bindingsOf r.relations := by
  cases r
  rw [allBindings]

theorem mem_bindingsOf {rs : List Relation} {v : Value} :
    v ∈ bindingsOf rs ↔ ∃ r ∈ rs, v ∈ r.allBindings := by
  induction rs with
  | nil => simp [bindingsOf]
  | cons r rs ih => simp [bindingsOf, ih]

theorem bindingsOf_append (rs ts : List Relation) :
    bindingsOf (rs ++ ts) = bindingsOf rs ++ bindingsOf ts := by
  induction rs with
  | nil => rfl
  | cons r rs ih => rw [cons_append, bindingsOf, bindingsOf, ih, append_assoc]

theorem allBindings_attach (child : Relation) :
    (r.attach child).allBindings = r.allBindings ++ child.allBindings := by
  rw [allBindings_eq, allBindings_eq r]
  simp only [attach, bindingsOf_append, bindingsOf, append_nil, append_assoc]

theorem allBindings_addAttribute (name : String) :
    (r.addAttribute name).allBindings = r.allBindings := by
  rw [allBindings_eq, allBindings_eq r]
  unfold addAttribute
  split <;> rfl

/-! ## The attributes of a node -/

theorem attributes_addAttribute (name : String) :
    (r.addAttribute name).attributes = addNew r.attributes name := by
  have hcontains : r.hasAttribute name = r.attributes.contains name := by
    rw [Bool.eq_iff_iff]
    simp [hasAttribute]
  unfold addAttribute addNew
  rw [hcontains]
  split <;> rfl

theorem relations_addAttribute (name : String) : (r.addAttribute name).relations = r.relations := by
  unfold addAttribute
  split <;> rfl

/-! ## The tree without its values -/

mutual

/-- **The tree without its values**: every node with its bindings dropped. -/
def skeleton : Relation → Relation
  | ⟨type, table, sql, _, attributes, relations⟩ =>
    ⟨type, table, sql, [], attributes, skeletons relations⟩

/-- The trees without their values. -/
def skeletons : List Relation → List Relation
  | [] => []
  | r :: rest => r.skeleton :: skeletons rest

end

theorem skeletons_eq_map (rs : List Relation) : skeletons rs = rs.map skeleton := by
  induction rs with
  | nil => rfl
  | cons r rs ih => rw [skeletons, ih, map_cons]

theorem skeleton_eq :
    r.skeleton = ⟨r.type, r.table, r.sql, [], r.attributes, r.relations.map skeleton⟩ := by
  cases r
  rw [skeleton, skeletons_eq_map]

/-- Two trees with one skeleton agree in everything but the values, at the root and below it. -/
theorem skeleton_eq_skeleton_iff {r r' : Relation} :
    r.skeleton = r'.skeleton ↔
      r.type = r'.type ∧ r.table = r'.table ∧ r.sql = r'.sql ∧ r.attributes = r'.attributes ∧
        r.relations.map skeleton = r'.relations.map skeleton := by
  rw [skeleton_eq, skeleton_eq r', mk.injEq]
  simp only [true_and]

theorem skeleton_attach (child : Relation) :
    (r.attach child).skeleton = r.skeleton.attach child.skeleton := by
  rw [skeleton_eq, skeleton_eq r]
  simp only [attach, map_append, map_cons, map_nil]

theorem skeleton_addAttribute (name : String) :
    (r.addAttribute name).skeleton = r.skeleton.addAttribute name := by
  rw [skeleton_eq, skeleton_eq r]
  unfold addAttribute hasAttribute
  dsimp only
  split <;> rfl

theorem label_skeleton : r.skeleton.label = r.label := by
  rw [skeleton_eq]
  rfl

end Relation
end Query
end TreeQuery
