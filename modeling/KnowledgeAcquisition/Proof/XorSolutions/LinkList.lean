import KnowledgeAcquisition.Library.Links
import KnowledgeAcquisition.Library.XorLinks
import KnowledgeAcquisition.XorSolutions.LinkList

/-!
# Traversals in both directions

The list that an append leaves behind is linked, with the null pointer at both ends. A traversal from either end
therefore visits the nodes one after the other, and meets the null pointer behind the last one.
-/

namespace KnowledgeAcquisition.Proof.XorSolutions
open KnowledgeAcquisition.XorSolutions Library XorLinks

variable {memory : Memory} {node last : Pointer} {value : Int} {cells : List (Pointer × Int)} {s : State}

def xoredOf (memory : Memory) (node : Pointer) : Pointer := (memory node).elim 0 Node.xored

def valueOf (memory : Memory) (node : Pointer) : Option Int := (memory node).map Node.value

theorem xoredOf_update (memory : Memory) (node : Pointer) (read : Node) :
    xoredOf (Function.update memory node (some read)) = Function.update (xoredOf memory) node read.xored := by
  funext other
  by_cases same : other = node
  · subst same
    rw [xoredOf, Function.update_self, Function.update_self, Option.elim_some]
  · rw [xoredOf, Function.update_of_ne same, Function.update_of_ne same, xoredOf]

theorem valueOf_update (memory : Memory) (node : Pointer) (read : Node) :
    valueOf (Function.update memory node (some read)) = Function.update (valueOf memory) node (some read.value) := by
  funext other
  by_cases same : other = node
  · subst same
    rw [valueOf, Function.update_self, Function.update_self, Option.map_some]
  · rw [valueOf, Function.update_of_ne same, Function.update_of_ne same, valueOf]

theorem setXored_spec (present : valueOf memory node = some value) (xored : Pointer → Pointer) :
    ∃ next, setXored memory node xored = some next ∧
      xoredOf next = Function.update (xoredOf memory) node (xored (xoredOf memory node)) ∧
      valueOf next = valueOf memory := by
  obtain ⟨read, found, rfl⟩ := Option.map_eq_some_iff.mp present
  refine ⟨_, by rw [setXored, found, Option.map_some], ?_, ?_⟩
  · rw [xoredOf_update, xoredOf, found, Option.elim_some]
  · rw [valueOf_update, ← present, Function.update_eq_self]

structure Represents (s : State) (cells : List (Pointer × Int)) : Prop where
  begin_eq : s.ll.begin = (cells.map Prod.fst).headD 0
  end_eq : s.ll.end = (cells.map Prod.fst).getLastD 0
  linked : Linked (xoredOf s.memory) 0 (cells.map Prod.fst) 0
  nodup : (cells.map Prod.fst).Nodup
  node : ∀ cell ∈ cells, cell.1 ≠ 0 ∧ valueOf s.memory cell.1 = some cell.2

theorem append_first (represents : Represents s []) (nonzero : node ≠ 0) :
    ∃ next, linklistAppend s node value = some next ∧ Represents next [(node, value)] := by
  have atEnd : s.ll.end = 0 := represents.end_eq
  have atBegin : s.ll.begin = 0 := represents.begin_eq
  refine ⟨_, by rw [linklistAppend, if_pos atEnd, if_pos atBegin], rfl, rfl, ?_, ?_, ?_⟩
  · rw [nodeCreate, xoredOf_update]
    exact ⟨Function.update_self .., trivial⟩
  · exact List.nodup_singleton node
  · rw [List.forall_mem_singleton, nodeCreate, valueOf_update]
    exact ⟨nonzero, Function.update_self ..⟩

theorem writes_spec {v : Int} (value : Int) (lastValue : valueOf memory last = some v) (other : node ≠ last) :
    ∃ pointing final, setXored (nodeCreate memory node value) node (fun _ => last) = some pointing ∧
      setXored pointing last (fun xored => xored ^^^ node) = some final ∧
      xoredOf final = Function.update (Function.update (xoredOf memory) node last) last (xoredOf memory last ^^^ node) ∧
      valueOf final = Function.update (valueOf memory) node (some value) := by
  have created := valueOf_update memory node { value, xored := 0 }
  have blank := xoredOf_update memory node { value, xored := 0 }
  have here : valueOf (nodeCreate memory node value) node = some value := by
    rw [nodeCreate, created, Function.update_self]
  obtain ⟨pointing, set, xored, values⟩ := setXored_spec here fun _ => last
  rw [nodeCreate, blank, Function.update_idem] at xored
  rw [nodeCreate, created] at values
  have there : valueOf pointing last = some v := by
    rw [values, Function.update_of_ne (Ne.symm other), lastValue]
  obtain ⟨final, set', xored', values'⟩ := setXored_spec there fun xored => xored ^^^ node
  rw [xored, Function.update_of_ne (Ne.symm other)] at xored'
  exact ⟨pointing, final, set, set', xored', values'.trans values⟩

theorem append_next {front : List (Pointer × Int)} {v : Int} (represents : Represents s (front ++ [(last, v)]))
    (fresh : node ∉ (front ++ [(last, v)]).map Prod.fst) (nonzero : node ≠ 0) :
    ∃ next, linklistAppend s node value = some next ∧ Represents next (front ++ [(last, v)] ++ [(node, value)]) := by
  obtain ⟨first, atEnd, linked, nodup, nodes⟩ := represents
  obtain ⟨lastNonzero, lastValue⟩ := nodes (last, v) (List.mem_append_right front List.mem_cons_self)
  have grown := nodup.concat fresh
  simp only [List.map_append, List.map_cons, List.map_nil] at first atEnd linked nodup fresh grown
  rw [List.getLastD_concat] at atEnd
  have other : node ≠ last := fun same => fresh (same ▸ List.mem_append_right _ List.mem_cons_self)
  have absent : last ∉ front.map Prod.fst := fun found =>
    List.disjoint_of_nodup_append nodup found List.mem_cons_self
  obtain ⟨pointing, final, set, set', xored, values⟩ := writes_spec value lastValue other
  refine ⟨{ memory := final, ll := { s.ll with «end» := node } }, ?_, ?_, ?_, ?_, ?_, ?_⟩
  · rw [linklistAppend, if_neg (atEnd ▸ lastNonzero), atEnd, set]
    simp only [Option.bind_eq_bind, Option.bind_some, set']
  · rw [first]
    cases front with
    | nil => rfl
    | cons cell front => rfl
  · simp only [List.map_append, List.map_cons, List.map_nil, List.getLastD_concat]
  · have unchanged := linked.congr (Links.update_outside (v := last) fresh)
    have snoc := unchanged.snoc absent other (Function.update_self ..)
    rw [Function.update_of_ne (Ne.symm other), ← xored] at snoc
    simpa only [List.map_append, List.map_cons, List.map_nil] using snoc
  · rw [List.concat_eq_append] at grown
    simpa only [List.map_append, List.map_cons, List.map_nil] using grown
  · rw [List.forall_mem_append, List.forall_mem_singleton, values]
    refine ⟨?_, nonzero, Function.update_self ..⟩
    intro cell member
    have elsewhere : cell.1 ≠ node := by
      rintro rfl
      exact fresh (by simpa only [List.map_append, List.map_cons, List.map_nil] using List.mem_map_of_mem member)
    rw [Function.update_of_ne elsewhere]
    exact nodes cell member

theorem append_spec (represents : Represents s cells) (fresh : node ∉ cells.map Prod.fst) (nonzero : node ≠ 0) :
    ∃ next, linklistAppend s node value = some next ∧ Represents next (cells ++ [(node, value)]) := by
  rcases List.eq_nil_or_concat cells with rfl | ⟨front, ⟨last, v⟩, rfl⟩
  · exact append_first represents nonzero
  · rw [List.concat_eq_append] at *
    exact append_next represents fresh nonzero

theorem iteration_step {s : Iteration} (nonzero : s.iter ≠ 0) (present : valueOf memory s.iter = some value) :
    iteration memory s = some (.inl
      { iter := xoredOf memory s.iter ^^^ s.prev, prev := s.iter, printed := s.printed ++ [value] }) := by
  obtain ⟨read, found, rfl⟩ := Option.map_eq_some_iff.mp present
  rw [iteration, if_neg nonzero, nodeNext, xoredOf, found]
  rfl

theorem run_visits {s : Iteration} (iter : s.iter = (cells.map Prod.fst).headD 0)
    (linked : Linked (xoredOf memory) s.prev (cells.map Prod.fst) 0)
    (node : ∀ cell ∈ cells, cell.1 ≠ 0 ∧ valueOf memory cell.1 = some cell.2) {fuel : Nat}
    (enough : cells.length < fuel) :
    Loop.run (iteration memory) fuel s = some (s.printed ++ cells.map Prod.snd) := by
  induction cells generalizing s fuel with
  | nil =>
      cases fuel with
      | zero => exact absurd enough (Nat.not_lt_zero _)
      | succ fuel => simp [Loop.run, iteration, iter]
  | cons cell rest ih =>
      cases fuel with
      | zero => exact absurd enough (Nat.not_lt_zero _)
      | succ fuel =>
          obtain ⟨nonzero, present⟩ := node cell List.mem_cons_self
          have here : s.iter = cell.1 := iter
          have step := iteration_step (here ▸ nonzero) (here ▸ present)
          rw [here, linked.next] at step
          let next : Iteration :=
            { iter := (rest.map Prod.fst).headD 0, prev := cell.1, printed := s.printed ++ [cell.2] }
          have visited := ih (s := next) rfl linked.2 (fun other member => node other (List.mem_cons_of_mem cell member))
            (Nat.lt_of_succ_lt_succ enough)
          rw [List.append_assoc] at visited
          rw [Loop.run, step]
          exact visited

theorem visit_spec (linked : Linked (xoredOf memory) 0 (cells.map Prod.fst) 0)
    (node : ∀ cell ∈ cells, cell.1 ≠ 0 ∧ valueOf memory cell.1 = some cell.2) {fuel : Nat}
    (enough : cells.length < fuel) :
    visit memory fuel ((cells.map Prod.fst).headD 0) = some (cells.map Prod.snd) :=
  run_visits rfl linked node enough

theorem both_traversals (memory : Memory) (appends : List (Pointer × Int)) (distinct : (appends.map Prod.fst).Nodup)
    (nonzero : ∀ append ∈ appends, append.1 ≠ 0) :
    ∃ s, appendAll { memory, ll := { begin := 0, «end» := 0 } } appends = some s ∧
      ∀ fuel > appends.length, visit s.memory fuel s.ll.begin = some (appends.map Prod.snd) ∧
        visit s.memory fuel s.ll.end = some (appends.map Prod.snd).reverse := by
  have empty : Represents { memory, ll := { begin := 0, «end» := 0 } } [] := ⟨rfl, rfl, trivial, List.nodup_nil, nofun⟩
  have appended : ∃ s, appendAll { memory, ll := { begin := 0, «end» := 0 } } appends = some s ∧ Represents s appends := by
    refine Loop.foldlM_total (I := fun past s => Represents s past) ?_ empty
    intro past append rest s split represents
    rw [split, List.map_append, List.map_cons] at distinct
    apply append_spec represents
    · exact fun found => List.disjoint_of_nodup_append distinct found List.mem_cons_self
    · exact nonzero append (split ▸ List.mem_append_right past List.mem_cons_self)
  obtain ⟨s, ran, represents⟩ := appended
  refine ⟨s, ran, ?_⟩
  intro fuel enough
  constructor
  · rw [represents.begin_eq]
    exact visit_spec represents.linked represents.node enough
  · have linked := represents.linked.reverse
    have nodes : ∀ cell ∈ appends.reverse, cell.1 ≠ 0 ∧ valueOf s.memory cell.1 = some cell.2 :=
      fun cell member => represents.node cell (List.mem_reverse.mp member)
    rw [← List.map_reverse] at linked
    rw [← List.length_reverse] at enough
    have visited := visit_spec linked nodes enough
    rwa [List.map_reverse, List.map_reverse, List.headD_eq_head?_getD, List.head?_reverse,
      ← List.getLastD_eq_getLast?, ← represents.end_eq] at visited

theorem both_traversals_three :
    ∃ s, appendAll { memory := fun _ => none, ll := { begin := 0, «end» := 0 } } [(48, 5), (16, 6), (32, 7)] = some s ∧
      ∀ fuel > 3, visit s.memory fuel s.ll.begin = some [5, 6, 7] ∧ visit s.memory fuel s.ll.end = some [7, 6, 5] :=
  both_traversals _ [(48, 5), (16, 6), (32, 7)] (by decide) (by decide)

end KnowledgeAcquisition.Proof.XorSolutions
