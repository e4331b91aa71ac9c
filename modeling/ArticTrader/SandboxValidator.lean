import ArticTrader.PythonGrammar

/-!
The gate for user-written strategies: which syntax trees `validate_ast` lets
through, and what it leaves unchecked.
-/

namespace ArticTrader.SandboxValidator

open ArticTrader.PythonText
open ArticTrader.TreeWalk
open ArticTrader.PythonGrammar

/-- `ast.Index`, which is listed as well, has no instances. -/
def ALLOWED_NODES : List NodeType :=
  [.Module, .Expr, .Constant, .FormattedValue, .List, .Tuple, .Dict, .Set, .BinOp, .UnaryOp,
    .BoolOp, .Compare, .IfExp, .If, .For, .While, .Break, .Continue, .Pass, .FunctionDef,
    .arguments, .arg, .Return, .Lambda, .Call, .keyword, .Name, .Load, .Store, .Del, .Assign,
    .AugAssign, .AnnAssign, .Subscript, .Slice, .ListComp, .SetComp, .DictComp, .GeneratorExp,
    .comprehension, .Add, .Sub, .Mult, .Div, .FloorDiv, .Mod, .Pow, .MatMult, .LShift, .RShift,
    .BitOr, .BitXor, .BitAnd, .USub, .UAdd, .Not, .Invert, .And, .Or, .Eq, .NotEq, .Lt, .LtE,
    .Gt, .GtE, .Is, .IsNot, .In, .NotIn, .Starred]

def BANNED_NODES : List NodeType :=
  [.Import, .ImportFrom, .Attribute, .Global, .Nonlocal, .ClassDef, .Try, .Raise, .With,
    .AsyncWith, .Yield, .YieldFrom, .AsyncFunctionDef, .AsyncFor, .Await, .Delete, .JoinedStr]

def BANNED_NAMES : List Text :=
  ["__import__".toList, "eval".toList, "exec".toList, "compile".toList, "open".toList,
    "input".toList, "globals".toList, "locals".toList, "vars".toList, "dir".toList,
    "getattr".toList, "setattr".toList, "delattr".toList, "hasattr".toList, "type".toList,
    "object".toList, "super".toList, "__builtins__".toList, "__class__".toList,
    "__bases__".toList, "__subclasses__".toList, "__mro__".toList, "__dict__".toList,
    "__code__".toList, "__globals__".toList]

inductive ASTViolation where
  | syntax_error
  | banned_node (type : NodeType)
  | banned_name (id : Text)
  | banned_arg_name (arg : Text)
  | banned_dunder_literal (value : Text)
  deriving DecidableEq, Repr

def is_dunder (name : Text) : Bool :=
  startswith name "__".toList && endswith name "__".toList && decide (4 ≤ name.length)

def is_banned (name : Text) : Bool := name ∈ BANNED_NAMES || is_dunder name

def check_names : NodeType → List Ast → Option ASTViolation
  | .Name, .identifier id :: _ => if is_banned id then some (.banned_name id) else none
  | .arg, .identifier arg :: _ => if is_dunder arg then some (.banned_arg_name arg) else none
  | .Constant, .constant (.str value) :: _ =>
      if is_dunder value then some (.banned_dunder_literal value) else none
  | _, _ => none

def check_node : Ast → Option ASTViolation
  | .node type fields =>
      if type ∈ BANNED_NODES then some (.banned_node type) else check_names type fields
  | _ => none

def validate_ast (tree : Ast) : Except ASTViolation Unit :=
  match (ast_walk tree).findSome? check_node with
  | some violation => .error violation
  | none => .ok ()

/-- `parse` is the parser of the language; it answers with `none` where the
text is not a program. -/
def parse_and_validate (parse : Text → Option Ast) (source : Text) : Except ASTViolation Ast :=
  match parse source with
  | none => .error .syntax_error
  | some tree =>
      match validate_ast tree with
      | .error violation => .error violation
      | .ok () => .ok tree

/-- What the module promises of an accepted tree. -/
structure Whitelisted (tree : Ast) : Prop where
  types : ∀ type fields, Within iter_child_nodes tree (.node type fields) →
    type ∈ ALLOWED_NODES
  identifiers : ∀ n, Within iter_child_nodes tree n → ∀ name ∈ n.identifiers,
    is_banned name = false

/-- The node types that are in neither list and can stand in an accepted
module, at the top of every construct that is in neither list. -/
def UNLISTED_NODES : List NodeType :=
  [.NamedExpr, .Assert, .Match, .TryStar, .TypeAlias, .TypeVar, .ParamSpec, .TypeVarTuple,
    .TypeIgnore]

/-- The identifiers of a node that nothing has checked are free of the names
that the gate bans elsewhere. -/
def names_free (type : NodeType) (identifiers : List Text) : Prop :=
  match type with
  | .FunctionDef | .keyword => ∀ name ∈ identifiers, is_banned name = false
  | .arg => ∀ name ∈ identifiers, name ∉ BANNED_NAMES
  | _ => True

/-- No construct of a type in neither list, and no banned name where names are
not checked. -/
structure StaysListed (tree : Ast) : Prop where
  types : ∀ type fields, Within iter_child_nodes tree (.node type fields) →
    type ∉ UNLISTED_NODES
  names : ∀ type fields, Within iter_child_nodes tree (.node type fields) →
    names_free type (Ast.node type fields).identifiers

theorem validate_ast_ok_iff {tree : Ast} :
    validate_ast tree = .ok () ↔
      ∀ n, Within iter_child_nodes tree n → check_node n = none := by
  simp only [← mem_ast_walk]
  rw [← List.findSome?_eq_none_iff, validate_ast]
  cases (ast_walk tree).findSome? check_node with
  | none => simp
  | some violation => simp

theorem check_node_none {type : NodeType} {fields : List Ast}
    (h : check_node (.node type fields) = none) :
    type ∉ BANNED_NODES ∧ check_names type fields = none := by
  rw [check_node] at h
  split_ifs at h with hbanned
  exact ⟨hbanned, h⟩

def LISTED_SORTS : List GrammarSort :=
  [.stmt, .expr, .expr_context, .boolop, .operator, .unaryop, .cmpop, .comprehension,
    .arguments, .arg, .keyword, .type_ignore, .type_param]

theorem child_sorts_listed :
    ∀ type ∈ ALLOWED_NODES, ∀ s ∈ child_sorts type, s ∈ LISTED_SORTS := by
  decide

theorem allowed_of_listed_sort (type : NodeType) (hsort : type.sort ∈ LISTED_SORTS)
    (hbanned : type ∉ BANNED_NODES) (hlisted : type ∉ UNLISTED_NODES) :
    type ∈ ALLOWED_NODES := by
  revert hsort hbanned hlisted
  cases type <;> decide

theorem allowed_identifier_kinds :
    ∀ type ∈ ALLOWED_NODES, type ∉ [NodeType.Name, .arg, .FunctionDef, .keyword] →
      ∀ k ∈ node_fields type, k.holds_identifier = false := by
  decide

theorem allowed_not_unlisted : ∀ type ∈ ALLOWED_NODES, type ∉ UNLISTED_NODES := by
  decide

theorem single_identifier {type : NodeType} (ks : List FieldKind) {fields : List Ast}
    (hfields : node_fields type = .identifier :: ks)
    (hks : ∀ k ∈ ks, k.holds_identifier = false)
    (h : conforms_fields (node_fields type) fields = true) :
    ∃ name rest, fields = .identifier name :: rest ∧
      (Ast.node type fields).identifiers = [name] := by
  rw [hfields] at h
  cases fields with
  | nil => cases h
  | cons field rest =>
      rw [conforms_fields, Bool.and_eq_true] at h
      obtain ⟨hfield, hrest⟩ := h
      cases field with
      | identifier name =>
          refine ⟨name, rest, rfl, ?_⟩
          have hnil : rest.flatMap Ast.field_identifiers = [] := by
            rw [List.flatMap_eq_nil_iff]
            intro a ha
            obtain ⟨k, hk, hconforms⟩ := exists_kind_of_mem hrest ha
            exact field_identifiers_eq_nil hconforms (hks k hk)
          rw [Ast.identifiers, List.flatMap_cons, hnil, List.append_nil, Ast.field_identifiers]
      | _ => simp [Ast.conforms] at hfield

/-- What `ast.parse` returns: a module that follows the grammar. -/
def is_module : Ast → Bool
  | .node .Module fields => conforms_fields (node_fields .Module) fields
  | _ => false

def Listed (a : Ast) : Prop :=
  ∃ type fields, a = .node type fields ∧ type ∈ ALLOWED_NODES ∧
    conforms_fields (node_fields type) fields = true

theorem listed_module {tree : Ast} (h : is_module tree = true) : Listed tree := by
  unfold is_module at h
  split at h
  · exact ⟨.Module, _, rfl, by decide, h⟩
  · cases h

theorem listed_within {tree n : Ast} (hmodule : is_module tree = true)
    (hok : validate_ast tree = .ok ()) (hstays : StaysListed tree)
    (hn : Within iter_child_nodes tree n) : Listed n := by
  have hcheck := validate_ast_ok_iff.mp hok
  refine (Within.inherit (P := fun a => Within iter_child_nodes tree a ∧ Listed a) ?_ hn
    ⟨.refl tree, listed_module hmodule⟩).2
  rintro a ⟨hwithin, type, fields, rfl, hallowed, hconforms⟩ c hc
  have hbelow : Within iter_child_nodes tree c := hwithin.trans (.child hc (.refl c))
  obtain ⟨s, hs, hone⟩ := child_conforms hconforms hc
  obtain ⟨type', fields', rfl, hsort, hconforms'⟩ := conforms_one_iff.mp hone
  refine ⟨hbelow, type', fields', rfl, ?_, hconforms'⟩
  refine allowed_of_listed_sort type' ?_ (check_node_none (hcheck _ hbelow)).1
    (hstays.types type' fields' hbelow)
  rw [hsort]
  exact child_sorts_listed type hallowed s hs

theorem names_of_listed {type : NodeType} {fields : List Ast} (hallowed : type ∈ ALLOWED_NODES)
    (hconforms : conforms_fields (node_fields type) fields = true)
    (hcheck : check_names type fields = none)
    (hfree : names_free type (Ast.node type fields).identifiers) :
    ∀ name ∈ (Ast.node type fields).identifiers, is_banned name = false := by
  by_cases hkind : type ∈ [NodeType.Name, .arg, .FunctionDef, .keyword]
  · simp only [List.mem_cons, List.not_mem_nil, or_false] at hkind
    rcases hkind with rfl | rfl | rfl | rfl
    · obtain ⟨name, rest, rfl, hids⟩ := single_identifier [.one .expr_context] rfl (by decide)
        hconforms
      intro name' hname'
      obtain rfl : name' = name := by simpa [hids] using hname'
      simpa [check_names] using hcheck
    · obtain ⟨name, rest, rfl, hids⟩ := single_identifier [.opt .expr, .string_opt] rfl
        (by decide) hconforms
      intro name' hname'
      have hlist := hfree name' hname'
      obtain rfl : name' = name := by simpa [hids] using hname'
      have hdunder : is_dunder name' = false := by simpa [check_names] using hcheck
      simp [is_banned, hlist, hdunder]
    · exact hfree
    · exact hfree
  · intro name hname
    rw [identifiers_eq_nil hconforms (allowed_identifier_kinds type hallowed hkind)] at hname
    cases hname

/-- An accepted module keeps the promise of the whitelist exactly when it stays
clear of what the gate does not check. -/
theorem whitelisted_iff {tree : Ast} (hmodule : is_module tree = true)
    (hok : validate_ast tree = .ok ()) : Whitelisted tree ↔ StaysListed tree := by
  constructor
  · rintro ⟨htypes, hidentifiers⟩
    refine ⟨fun type fields hn => allowed_not_unlisted type (htypes type fields hn), ?_⟩
    intro type fields hn
    have hnames := hidentifiers _ hn
    unfold names_free
    split
    · exact hnames
    · exact hnames
    · intro name hname hbanned
      have hfree := hnames name hname
      simp [is_banned, hbanned] at hfree
    · trivial
  · intro hstays
    have hcheck := validate_ast_ok_iff.mp hok
    refine ⟨?_, ?_⟩
    · intro type fields hn
      obtain ⟨type', fields', heq, hallowed, -⟩ := listed_within hmodule hok hstays hn
      cases heq
      exact hallowed
    · intro n hn
      obtain ⟨type, fields, rfl, hallowed, hconforms⟩ := listed_within hmodule hok hstays hn
      exact names_of_listed hallowed hconforms (check_node_none (hcheck _ hn)).2
        (hstays.names type fields hn)

def pass_module : Ast := .node .Module [.list [.node .Pass []], .list []]

theorem whitelisted_iff_pass :
    validate_ast pass_module = .ok () ∧ (Whitelisted pass_module ↔ StaysListed pass_module) :=
  ⟨by decide, whitelisted_iff (by decide) (by decide)⟩

def assert_zero : Ast := .node .Assert [.node .Constant [.constant .other, .none], .none]

/-- `def eval(): assert 0` -/
def eval_function : Ast :=
  .node .FunctionDef
    [.identifier "eval".toList,
      .node .arguments [.list [], .list [], .none, .list [], .list [], .none, .list []],
      .list [assert_zero], .list [], .none, .none, .list []]

def eval_module : Ast := .node .Module [.list [eval_function], .list []]

/-- An accepted module defines a function `eval` and asserts. -/
theorem accepted_not_whitelisted :
    ¬ ∀ tree : Ast, is_module tree = true → validate_ast tree = .ok () → Whitelisted tree := by
  intro h
  have hlisted := h eval_module (by decide) (by decide)
  have hfunction : eval_function ∈ iter_child_nodes eval_module := .head _
  have hassert : assert_zero ∈ iter_child_nodes eval_function := .tail _ (.head _)
  have htype := hlisted.types .Assert _ (.child hfunction (.child hassert (.refl _)))
  exact absurd htype (by decide)

end ArticTrader.SandboxValidator
