import Mathlib.Algebra.Order.BigOperators.Group.List
import Mathlib.Algebra.Order.Ring.Nat
import Mathlib.Data.List.Basic
import ArticTrader.PythonText
import ArticTrader.TreeWalk

/-!
The abstract grammar of Python 3.12: the node types of its syntax trees, the
fields of each, and the trees that follow it.
-/

namespace ArticTrader.PythonGrammar

open ArticTrader.PythonText (Text)
open ArticTrader.TreeWalk

/-- The node types that are classes of instances; the abstract classes of the
grammar are its sorts. -/
inductive NodeType where
  | Module | Interactive | Expression | FunctionType
  | FunctionDef | AsyncFunctionDef | ClassDef | Return | Delete | Assign | TypeAlias
  | AugAssign | AnnAssign | For | AsyncFor | While | If | With | AsyncWith | Match | Raise
  | Try | TryStar | Assert | Import | ImportFrom | Global | Nonlocal | Expr | Pass | Break
  | Continue
  | BoolOp | NamedExpr | BinOp | UnaryOp | Lambda | IfExp | Dict | Set | ListComp | SetComp
  | DictComp | GeneratorExp | Await | Yield | YieldFrom | Compare | Call | FormattedValue
  | JoinedStr | Constant | Attribute | Subscript | Starred | Name | List | Tuple | Slice
  | Load | Store | Del
  | And | Or
  | Add | Sub | Mult | MatMult | Div | Mod | Pow | LShift | RShift | BitOr | BitXor | BitAnd
  | FloorDiv
  | Invert | Not | UAdd | USub
  | Eq | NotEq | Lt | LtE | Gt | GtE | Is | IsNot | In | NotIn
  | comprehension | ExceptHandler | arguments | arg | keyword | alias | withitem | match_case
  | MatchValue | MatchSingleton | MatchSequence | MatchMapping | MatchClass | MatchStar
  | MatchAs | MatchOr
  | TypeIgnore
  | TypeVar | ParamSpec | TypeVarTuple
  deriving DecidableEq, Repr

inductive GrammarSort where
  | mod | stmt | expr | expr_context | boolop | operator | unaryop | cmpop | comprehension
  | excepthandler | arguments | arg | keyword | alias | withitem | match_case | pattern
  | type_ignore | type_param
  deriving DecidableEq, Repr

/-- What a field holds: one node, an optional node, a list of nodes, a list in
which a node may be missing, or something that is not a node. -/
inductive FieldKind where
  | one (s : GrammarSort)
  | opt (s : GrammarSort)
  | many (s : GrammarSort)
  | many_opt (s : GrammarSort)
  | identifier
  | identifier_opt
  | identifiers
  | constant
  | string_opt
  | int
  | int_opt
  deriving DecidableEq, Repr

def NodeType.sort : NodeType → GrammarSort
  | .Module | .Interactive | .Expression | .FunctionType => .mod
  | .FunctionDef | .AsyncFunctionDef | .ClassDef | .Return | .Delete | .Assign | .TypeAlias
  | .AugAssign | .AnnAssign | .For | .AsyncFor | .While | .If | .With | .AsyncWith | .Match
  | .Raise | .Try | .TryStar | .Assert | .Import | .ImportFrom | .Global | .Nonlocal | .Expr
  | .Pass | .Break | .Continue => .stmt
  | .BoolOp | .NamedExpr | .BinOp | .UnaryOp | .Lambda | .IfExp | .Dict | .Set | .ListComp
  | .SetComp | .DictComp | .GeneratorExp | .Await | .Yield | .YieldFrom | .Compare | .Call
  | .FormattedValue | .JoinedStr | .Constant | .Attribute | .Subscript | .Starred | .Name
  | .List | .Tuple | .Slice => .expr
  | .Load | .Store | .Del => .expr_context
  | .And | .Or => .boolop
  | .Add | .Sub | .Mult | .MatMult | .Div | .Mod | .Pow | .LShift | .RShift | .BitOr | .BitXor
  | .BitAnd | .FloorDiv => .operator
  | .Invert | .Not | .UAdd | .USub => .unaryop
  | .Eq | .NotEq | .Lt | .LtE | .Gt | .GtE | .Is | .IsNot | .In | .NotIn => .cmpop
  | .comprehension => .comprehension
  | .ExceptHandler => .excepthandler
  | .arguments => .arguments
  | .arg => .arg
  | .keyword => .keyword
  | .alias => .alias
  | .withitem => .withitem
  | .match_case => .match_case
  | .MatchValue | .MatchSingleton | .MatchSequence | .MatchMapping | .MatchClass | .MatchStar
  | .MatchAs | .MatchOr => .pattern
  | .TypeIgnore => .type_ignore
  | .TypeVar | .ParamSpec | .TypeVarTuple => .type_param

def node_fields : NodeType → List FieldKind
  | .Module => [.many .stmt, .many .type_ignore]
  | .Interactive => [.many .stmt]
  | .Expression => [.one .expr]
  | .FunctionType => [.many .expr, .one .expr]
  | .FunctionDef | .AsyncFunctionDef =>
      [.identifier, .one .arguments, .many .stmt, .many .expr, .opt .expr, .string_opt,
        .many .type_param]
  | .ClassDef =>
      [.identifier, .many .expr, .many .keyword, .many .stmt, .many .expr, .many .type_param]
  | .Return => [.opt .expr]
  | .Delete => [.many .expr]
  | .Assign => [.many .expr, .one .expr, .string_opt]
  | .TypeAlias => [.one .expr, .many .type_param, .one .expr]
  | .AugAssign => [.one .expr, .one .operator, .one .expr]
  | .AnnAssign => [.one .expr, .one .expr, .opt .expr, .int]
  | .For | .AsyncFor => [.one .expr, .one .expr, .many .stmt, .many .stmt, .string_opt]
  | .While | .If => [.one .expr, .many .stmt, .many .stmt]
  | .With | .AsyncWith => [.many .withitem, .many .stmt, .string_opt]
  | .Match => [.one .expr, .many .match_case]
  | .Raise => [.opt .expr, .opt .expr]
  | .Try | .TryStar => [.many .stmt, .many .excepthandler, .many .stmt, .many .stmt]
  | .Assert => [.one .expr, .opt .expr]
  | .Import => [.many .alias]
  | .ImportFrom => [.identifier_opt, .many .alias, .int_opt]
  | .Global | .Nonlocal => [.identifiers]
  | .Expr => [.one .expr]
  | .Pass | .Break | .Continue => []
  | .BoolOp => [.one .boolop, .many .expr]
  | .NamedExpr => [.one .expr, .one .expr]
  | .BinOp => [.one .expr, .one .operator, .one .expr]
  | .UnaryOp => [.one .unaryop, .one .expr]
  | .Lambda => [.one .arguments, .one .expr]
  | .IfExp => [.one .expr, .one .expr, .one .expr]
  | .Dict => [.many_opt .expr, .many .expr]
  | .Set => [.many .expr]
  | .ListComp | .SetComp | .GeneratorExp => [.one .expr, .many .comprehension]
  | .DictComp => [.one .expr, .one .expr, .many .comprehension]
  | .Await | .YieldFrom => [.one .expr]
  | .Yield => [.opt .expr]
  | .Compare => [.one .expr, .many .cmpop, .many .expr]
  | .Call => [.one .expr, .many .expr, .many .keyword]
  | .FormattedValue => [.one .expr, .int, .opt .expr]
  | .JoinedStr => [.many .expr]
  | .Constant => [.constant, .string_opt]
  | .Attribute => [.one .expr, .identifier, .one .expr_context]
  | .Subscript => [.one .expr, .one .expr, .one .expr_context]
  | .Starred => [.one .expr, .one .expr_context]
  | .Name => [.identifier, .one .expr_context]
  | .List | .Tuple => [.many .expr, .one .expr_context]
  | .Slice => [.opt .expr, .opt .expr, .opt .expr]
  | .Load | .Store | .Del | .And | .Or | .Add | .Sub | .Mult | .MatMult | .Div | .Mod | .Pow
  | .LShift | .RShift | .BitOr | .BitXor | .BitAnd | .FloorDiv | .Invert | .Not | .UAdd | .USub
  | .Eq | .NotEq | .Lt | .LtE | .Gt | .GtE | .Is | .IsNot | .In | .NotIn => []
  | .comprehension => [.one .expr, .one .expr, .many .expr, .int]
  | .ExceptHandler => [.opt .expr, .identifier_opt, .many .stmt]
  | .arguments =>
      [.many .arg, .many .arg, .opt .arg, .many .arg, .many_opt .expr, .opt .arg, .many .expr]
  | .arg => [.identifier, .opt .expr, .string_opt]
  | .keyword => [.identifier_opt, .one .expr]
  | .alias => [.identifier, .identifier_opt]
  | .withitem => [.one .expr, .opt .expr]
  | .match_case => [.one .pattern, .opt .expr, .many .stmt]
  | .MatchValue => [.one .expr]
  | .MatchSingleton => [.constant]
  | .MatchSequence | .MatchOr => [.many .pattern]
  | .MatchMapping => [.many .expr, .many .pattern, .identifier_opt]
  | .MatchClass => [.one .expr, .many .pattern, .identifiers, .many .pattern]
  | .MatchStar => [.identifier_opt]
  | .MatchAs => [.opt .pattern, .identifier_opt]
  | .TypeIgnore => [.int, .string_opt]
  | .TypeVar => [.identifier, .opt .expr]
  | .ParamSpec | .TypeVarTuple => [.identifier]

/-- The value of a constant expression. Only texts are told apart. -/
inductive Constant where
  | str (value : Text)
  | other
  deriving DecidableEq, Repr

/-- What a field of a node may hold; a syntax tree is a `node`. -/
inductive Ast where
  | node (type : NodeType) (fields : List Ast)
  | list (elements : List Ast)
  | identifier (name : Text)
  | constant (value : Constant)
  | string
  | int
  | none

mutual

def Ast.size : Ast → ℕ
  | .node _ fields => sizes fields + 1
  | .list elements => sizes elements + 1
  | _ => 1

def sizes : List Ast → ℕ
  | [] => 0
  | a :: rest => a.size + sizes rest

end

def Ast.is_node : Ast → Bool
  | .node _ _ => true
  | _ => false

def Ast.field_nodes : Ast → List Ast
  | .node type fields => [.node type fields]
  | .list elements => elements.filter Ast.is_node
  | _ => []

def iter_child_nodes : Ast → List Ast
  | .node _ fields => fields.flatMap Ast.field_nodes
  | _ => []

def ast_walk (tree : Ast) : List Ast := walk iter_child_nodes tree.size [tree]

def Ast.field_identifiers : Ast → List Text
  | .identifier name => [name]
  | .list elements => elements.filterMap fun
      | .identifier name => some name
      | _ => Option.none
  | _ => []

def Ast.identifiers : Ast → List Text
  | .node _ fields => fields.flatMap Ast.field_identifiers
  | _ => []

mutual

def Ast.conforms : FieldKind → Ast → Bool
  | .one s, .node type fields => type.sort = s && conforms_fields (node_fields type) fields
  | .opt s, .node type fields => type.sort = s && conforms_fields (node_fields type) fields
  | .opt _, .none => true
  | .many s, .list elements => conforms_elements (.one s) elements
  | .many_opt s, .list elements => conforms_elements (.opt s) elements
  | .identifier, .identifier _ => true
  | .identifier_opt, .identifier _ => true
  | .identifier_opt, .none => true
  | .identifiers, .list elements => conforms_elements .identifier elements
  | .constant, .constant _ => true
  | .string_opt, .string => true
  | .string_opt, .none => true
  | .int, .int => true
  | .int_opt, .int => true
  | .int_opt, .none => true
  | _, _ => false

def conforms_fields : List FieldKind → List Ast → Bool
  | [], [] => true
  | k :: ks, a :: rest => a.conforms k && conforms_fields ks rest
  | _, _ => false

def conforms_elements : FieldKind → List Ast → Bool
  | _, [] => true
  | k, a :: rest => a.conforms k && conforms_elements k rest

end

def FieldKind.sort : FieldKind → Option GrammarSort
  | .one s | .opt s | .many s | .many_opt s => some s
  | _ => Option.none

def FieldKind.holds_identifier : FieldKind → Bool
  | .identifier | .identifier_opt | .identifiers => true
  | _ => false

def child_sorts (type : NodeType) : List GrammarSort := (node_fields type).filterMap FieldKind.sort

theorem sizes_eq_sum (as : List Ast) : sizes as = (as.map Ast.size).sum := by
  induction as with
  | nil => rfl
  | cons a as ih => rw [sizes, ih, List.map_cons, List.sum_cons]

theorem sum_size_filter_le (as : List Ast) (p : Ast → Bool) :
    ((as.filter p).map Ast.size).sum ≤ (as.map Ast.size).sum :=
  ((List.filter_sublist (l := as)).map Ast.size).sum_le_sum (fun _ _ => Nat.zero_le _)

theorem sum_size_field_nodes_le (a : Ast) : (a.field_nodes.map Ast.size).sum ≤ a.size := by
  cases a with
  | node type fields => simp [Ast.field_nodes]
  | list elements =>
      rw [Ast.field_nodes, Ast.size, sizes_eq_sum]
      exact Nat.le_succ_of_le (sum_size_filter_le elements Ast.is_node)
  | _ => simp [Ast.field_nodes]

theorem sum_size_children_lt (a : Ast) :
    ((iter_child_nodes a).map Ast.size).sum < a.size := by
  cases a with
  | node type fields =>
      rw [iter_child_nodes, Ast.size, Nat.lt_succ_iff]
      induction fields with
      | nil => simp
      | cons field fields ih =>
          rw [List.flatMap_cons, List.map_append, List.sum_append, sizes]
          exact Nat.add_le_add (sum_size_field_nodes_le field) ih
  | list elements => simp [iter_child_nodes, Ast.size]
  | _ => simp [iter_child_nodes, Ast.size]

theorem mem_ast_walk {tree n : Ast} : n ∈ ast_walk tree ↔ Within iter_child_nodes tree n := by
  rw [ast_walk, mem_walk_iff sum_size_children_lt (by simp)]
  simp

theorem conforms_one_iff {s : GrammarSort} {a : Ast} :
    a.conforms (.one s) = true ↔
      ∃ type fields, a = .node type fields ∧ type.sort = s ∧
        conforms_fields (node_fields type) fields = true := by
  cases a with
  | node type fields => simp [Ast.conforms]
  | _ => simp [Ast.conforms]

theorem conforms_of_mem {k : FieldKind} {as : List Ast} {a : Ast}
    (h : conforms_elements k as = true) (ha : a ∈ as) : a.conforms k = true := by
  induction as with
  | nil => cases ha
  | cons b as ih =>
      rw [conforms_elements, Bool.and_eq_true] at h
      rcases List.mem_cons.mp ha with rfl | ha
      · exact h.1
      · exact ih h.2 ha

/-- The nodes in a field have the sort that its kind gives them. -/
theorem field_node_conforms {k : FieldKind} {a c : Ast} (h : a.conforms k = true)
    (hc : c ∈ a.field_nodes) : ∃ s ∈ k.sort, c.conforms (.one s) = true := by
  cases a with
  | node type fields =>
      obtain rfl : c = .node type fields := by simpa [Ast.field_nodes] using hc
      cases k with
      | one s => exact ⟨s, rfl, h⟩
      | opt s => exact ⟨s, rfl, h⟩
      | _ => simp [Ast.conforms] at h
  | list elements =>
      obtain ⟨hmem, hnode⟩ := List.mem_filter.mp hc
      cases k with
      | many s => exact ⟨s, rfl, conforms_of_mem h hmem⟩
      | many_opt s =>
          have helement := conforms_of_mem h hmem
          cases c with
          | node type fields => exact ⟨s, rfl, helement⟩
          | _ => cases hnode
      | identifiers =>
          have helement := conforms_of_mem h hmem
          cases c with
          | node type fields => simp [Ast.conforms] at helement
          | _ => cases hnode
      | _ => simp [Ast.conforms] at h
  | _ => cases hc

theorem exists_kind_of_mem {ks : List FieldKind} {fields : List Ast} {a : Ast}
    (h : conforms_fields ks fields = true) (ha : a ∈ fields) :
    ∃ k ∈ ks, a.conforms k = true := by
  induction fields generalizing ks with
  | nil => cases ha
  | cons b fields ih =>
      cases ks with
      | nil => cases h
      | cons k ks =>
          rw [conforms_fields, Bool.and_eq_true] at h
          rcases List.mem_cons.mp ha with rfl | ha
          · exact ⟨k, List.mem_cons_self, h.1⟩
          · obtain ⟨k', hk', hconforms⟩ := ih h.2 ha
            exact ⟨k', List.mem_cons_of_mem k hk', hconforms⟩

/-- The children of a node follow the grammar, in the sorts of its fields. -/
theorem child_conforms {type : NodeType} {fields : List Ast} {c : Ast}
    (h : conforms_fields (node_fields type) fields = true)
    (hc : c ∈ iter_child_nodes (.node type fields)) :
    ∃ s ∈ child_sorts type, c.conforms (.one s) = true := by
  obtain ⟨field, hfield, hc⟩ := List.mem_flatMap.mp hc
  obtain ⟨k, hk, hconforms⟩ := exists_kind_of_mem h hfield
  obtain ⟨s, hs, hone⟩ := field_node_conforms hconforms hc
  exact ⟨s, List.mem_filterMap.mpr ⟨k, hk, hs⟩, hone⟩

theorem field_identifiers_eq_nil {k : FieldKind} {a : Ast} (h : a.conforms k = true)
    (hk : k.holds_identifier = false) : a.field_identifiers = [] := by
  cases a with
  | list elements =>
      rw [Ast.field_identifiers, List.filterMap_eq_nil_iff]
      intro c hc
      cases c with
      | identifier name =>
          cases k with
          | many s => simpa [Ast.conforms] using conforms_of_mem h hc
          | many_opt s => simpa [Ast.conforms] using conforms_of_mem h hc
          | identifiers => cases hk
          | _ => simp [Ast.conforms] at h
      | _ => rfl
  | identifier name =>
      cases k with
      | identifier => cases hk
      | identifier_opt => cases hk
      | _ => simp [Ast.conforms] at h
  | _ => rfl

theorem identifiers_eq_nil {type : NodeType} {fields : List Ast}
    (h : conforms_fields (node_fields type) fields = true)
    (hkinds : ∀ k ∈ node_fields type, k.holds_identifier = false) :
    (Ast.node type fields).identifiers = [] := by
  rw [Ast.identifiers, List.flatMap_eq_nil_iff]
  intro field hfield
  obtain ⟨k, hk, hconforms⟩ := exists_kind_of_mem h hfield
  exact field_identifiers_eq_nil hconforms (hkinds k hk)

end ArticTrader.PythonGrammar
