import SchemaGraph.Proofs.Query.Requests
import SchemaGraph.Proofs.Sdl.Documents

/-! What is accepted as a document that can be executed. Whatever the text, the arguments in it are
well-formed values at every depth, so that an object in it has names for keys. -/

namespace SchemaGraph.Executable

open Sdl Reader

def Node.Formed (n : Node) : Prop := ∀ a ∈ n.passed, a.value.Formed false

def Definition.selected : Definition → List Node
  | .operation _ _ _ _ ns => ns
  | .fragment _ _ _ ns => ns

def Definition.Formed (d : Definition) : Prop := ∀ n ∈ d.selected, n.Formed

theorem formed_passedAll {ns : List Node} (h : ∀ n ∈ ns, n.Formed) :
    ∀ a ∈ Node.passedAll ns, a.value.Formed false := by
  induction ns with
  | nil => exact fun _ ha => absurd ha List.not_mem_nil
  | cons n ns ih =>
    obtain ⟨hn, hns⟩ := List.forall_mem_cons.1 h
    rw [Node.passedAll]
    exact List.forall_mem_append.2 ⟨hn, ih hns⟩

theorem formed_field {alias? : Option String} {name : String} {as : List (String × Value)}
    {ds : List Directive} {ns : List Node} (has : ∀ a ∈ as, a.2.Formed false)
    (hns : ∀ n ∈ ns, n.Formed) : (Node.field alias? name as ds ns).Formed := by
  rw [Node.Formed, Node.passed]
  exact List.forall_mem_append.2 ⟨List.forall_mem_map.2 has, formed_passedAll hns⟩

/-! Arguments and selections -/

theorem forall_mem_getD {α : Type} {P : α → Prop} {o : Option (List α)}
    (h : ∀ xs ∈ o, ∀ x ∈ xs, P x) : ∀ x ∈ o.getD [], P x := by
  cases o with
  | none => exact fun _ hx => absurd hx List.not_mem_nil
  | some xs => exact h xs rfl

theorem yields_argument (room : Nat) : Yields (fun a => a.2.Formed false) (argument room) := by
  refine yields_name.bind fun n _ => (yields_punct ':').bind fun _ _ => ?_
  exact (yields_value false room).bind fun v hv => .pure hv.1

theorem yields_arguments (room : Nat) :
    Yields (fun as => ∀ a ∈ as, a.2.Formed false) (arguments room) := by
  have hgroup := Yields.enclosed '(' ')' fun room =>
    (yields_argument room).many1 startsWithName
  refine (hgroup room).maybe.bind fun as has => .pure (forall_mem_getD fun bs hbs => ?_)
  obtain ⟨_, -, hbs⟩ := has bs hbs
  exact hbs

section Children

variable {children : Reader (List Node)} (h : Yields (fun ns => ∀ n ∈ ns, n.Formed) children)
  (room : Nat)
include h

theorem yields_field : Yields Node.Formed (field children room) := by
  have hsecond : Yields (fun _ => True) (do punct ':'; name) :=
    (yields_punct ':').bind fun _ _ => yields_name.imp fun _ _ => trivial
  refine yields_name.bind fun first _ => hsecond.maybe.bind fun second _ => ?_
  refine (yields_arguments room).bind fun as has => (yields_directives room).bind fun ds _ => ?_
  refine h.maybe.bind fun ns hns => ?_
  have hchildren : ∀ n ∈ ns.getD [], n.Formed := forall_mem_getD hns
  split
  · exact .pure (formed_field has hchildren)
  · exact .pure (formed_field has hchildren)

theorem yields_fragmentNode : Yields Node.Formed (fragmentNode children room) := by
  have hon : Yields (fun _ => True) (do word "on"; name) :=
    (yields_word "on").bind fun _ _ => yields_name.imp fun _ _ => trivial
  refine (yields_exactly Token.noConfusion).bind fun _ _ => yields_next.bind fun t _ => ?_
  split
  · refine yields_name.bind fun n _ => (yields_directives room).bind fun ds _ => .pure ?_
    exact fun _ ha => absurd ha List.not_mem_nil
  · refine hon.maybe.bind fun onType _ => (yields_directives room).bind fun ds _ => ?_
    exact h.bind fun ns hns => .pure (formed_passedAll hns)

theorem yields_node : Yields Node.Formed (node children room) := by
  refine yields_next.bind fun t _ => ?_
  split
  · exact yields_fragmentNode h room
  · exact yields_field h room

end Children

theorem yields_selections (room : Nat) :
    Yields (fun ns => ∀ n ∈ ns, n.Formed) (selections room) := by
  induction room with
  | zero => rintro ts _ _ - ⟨⟩
  | succ room ih =>
    refine (yields_punct '\x7b').bind fun _ _ => ?_
    refine ((yields_node ih room).many1 _).bind fun ns hns => ?_
    exact (yields_punct '\x7d').bind fun _ _ => .pure hns

/-! Definitions -/

theorem yields_variableDeclaration (room : Nat) :
    Yields (fun _ => True) (variableDeclaration room) := by
  have hdefault : Yields (Value.Fits true room) (do punct '='; value true room) :=
    (yields_punct '=').bind fun _ _ => yields_value true room
  refine (yields_punct '$').bind fun _ _ => yields_name.bind fun n _ => ?_
  refine (yields_punct ':').bind fun _ _ => (yields_typeRef room).bind fun t _ => ?_
  exact hdefault.maybe.bind fun v _ => (yields_directives room).bind fun ds _ => .pure trivial

theorem yields_declarations (room : Nat) : Yields (fun _ => True) (declarations room) := by
  have hgroup := Yields.enclosed '(' ')' fun room =>
    (yields_variableDeclaration room).many1 (atPunct '$')
  exact (hgroup room).maybe.bind fun _ _ => .pure trivial

theorem yields_operation (room : Nat) (kind : OperationType) :
    Yields Definition.Formed (operation room kind) := by
  refine yields_name.maybe.bind fun n _ => (yields_declarations room).bind fun vs _ => ?_
  refine (yields_directives room).bind fun ds _ => ?_
  exact (yields_selections room).bind fun ns hns => .pure hns

theorem yields_fragmentName : Yields (fun _ => True) fragmentName := by
  intro ts s rest _ h
  unfold fragmentName at h
  split at h
  · split at h
    · cases h
    · cases h
      exact ⟨trivial, .cons Token.noConfusion rest⟩
  · cases h

theorem yields_fragment (room : Nat) : Yields Definition.Formed (fragment room) := by
  refine yields_fragmentName.bind fun n _ => (yields_word "on").bind fun _ _ => ?_
  refine yields_name.bind fun onType _ => (yields_directives room).bind fun ds _ => ?_
  exact (yields_selections room).bind fun ns hns => .pure hns

theorem yields_definition (room : Nat) : Yields Definition.Formed (definition room) := by
  refine yields_rest.bind fun start _ => yields_next.bind fun t _ => ?_
  split
  · exact (yields_selections room).map fun ns hns => hns
  · refine yields_name.bind fun keyword _ => ?_
    split
    · exact yields_operation room .query
    · exact yields_operation room .mutation
    · exact yields_operation room .subscription
    · exact yields_fragment room
    · exact .throw start

theorem formed_of_ofText {s : String} {ds : List Definition} (h : ofText s = .ok ds) :
    ∀ d ∈ ds, d.Formed := by
  unfold ofText document at h
  split at h
  · cases h
  · rename_i hread
    cases h
    exact ((yields_definition _).many1 _ _ _ _ (formed_tokens _) hread).1

end SchemaGraph.Executable
