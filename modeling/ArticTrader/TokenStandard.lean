import Mathlib.Logic.Function.Basic

/-!
What a contract relies on in its ERC-721 base: who owns a token after the base
has minted, transferred or approved. The base state itself stays abstract.
-/

namespace ArticTrader.TokenStandard

abbrev Word := BitVec 256

abbrev Address := BitVec 160

structure Log where
  topics : List Word
  data : List Word
  deriving DecidableEq, Repr

inductive Approval where
  | approve (to_ : Address) (tokenId : Word)
  | setApprovalForAll (operator : Address) (approved : Bool)
  deriving DecidableEq, Repr

/-- The internal functions of the base contract; `none` stands for a revert.
`transferFrom` and `approval` take the sender first. -/
structure Erc721 (β : Type) where
  empty : β
  ownerOf : β → Word → Option Address
  mint : β → Address → Word → Option β
  transferFrom : β → Address → Address → Address → Word → Option β
  approval : β → Address → Approval → Option β
  ownerOf_empty : ∀ tokenId, ownerOf empty tokenId = none
  mint_some : ∀ {b b' : β} {to_ : Address} {tokenId : Word}, mint b to_ tokenId = some b' →
    to_ ≠ 0 ∧ ownerOf b tokenId = none ∧
      ownerOf b' = Function.update (ownerOf b) tokenId (some to_)
  transferFrom_some : ∀ {b b' : β} {sender source to_ : Address} {tokenId : Word},
    transferFrom b sender source to_ tokenId = some b' →
      to_ ≠ 0 ∧ ownerOf b tokenId = some source ∧
        ownerOf b' = Function.update (ownerOf b) tokenId (some to_)
  approval_some : ∀ {b b' : β} {sender : Address} {a : Approval},
    approval b sender a = some b' → ownerOf b' = ownerOf b

structure Tokens where
  owners : Word → Option Address
  tokenApprovals : Word → Option Address
  operatorApprovals : Address → Address → Bool

namespace Tokens

def mint (b : Tokens) (to_ : Address) (tokenId : Word) : Option Tokens :=
  if to_ ≠ 0 ∧ b.owners tokenId = none then
    some { b with owners := Function.update b.owners tokenId (some to_) }
  else none

def isAuthorized (b : Tokens) (owner spender : Address) (tokenId : Word) : Bool :=
  spender = owner || b.operatorApprovals owner spender ||
    b.tokenApprovals tokenId = some spender

def transferFrom (b : Tokens) (sender source to_ : Address) (tokenId : Word) : Option Tokens :=
  if to_ ≠ 0 ∧ b.owners tokenId = some source ∧ b.isAuthorized source sender tokenId then
    some { b with
      owners := Function.update b.owners tokenId (some to_),
      tokenApprovals := Function.update b.tokenApprovals tokenId none }
  else none

def approval (b : Tokens) (sender : Address) : Approval → Option Tokens
  | .approve to_ tokenId =>
      match b.owners tokenId with
      | none => none
      | some owner =>
          if sender = owner || b.operatorApprovals owner sender then
            let approved := if to_ = 0 then none else some to_
            some { b with tokenApprovals := Function.update b.tokenApprovals tokenId approved }
          else none
  | .setApprovalForAll operator approved =>
      if operator ≠ 0 then
        let ofSender := Function.update (b.operatorApprovals sender) operator approved
        some { b with operatorApprovals := Function.update b.operatorApprovals sender ofSender }
      else none

end Tokens

/-- The standard's own behaviour meets what the contract relies on. -/
def standard : Erc721 Tokens where
  empty := ⟨fun _ => none, fun _ => none, fun _ _ => false⟩
  ownerOf := Tokens.owners
  mint := Tokens.mint
  transferFrom := Tokens.transferFrom
  approval := Tokens.approval
  ownerOf_empty := fun _ => rfl
  mint_some := by
    intro b b' to_ tokenId h
    obtain ⟨⟨hto, hfree⟩, h⟩ := Option.ite_none_right_eq_some.mp h
    cases h
    exact ⟨hto, hfree, rfl⟩
  transferFrom_some := by
    intro b b' sender source to_ tokenId h
    obtain ⟨⟨hto, howner, -⟩, h⟩ := Option.ite_none_right_eq_some.mp h
    cases h
    exact ⟨hto, howner, rfl⟩
  approval_some := by
    intro b b' sender a h
    cases a with
    | approve to_ tokenId =>
        simp only [Tokens.approval] at h
        cases howner : b.owners tokenId with
        | none => simp [howner] at h
        | some owner =>
            simp only [howner, Option.ite_none_right_eq_some] at h
            obtain ⟨-, h⟩ := h
            cases h
            rfl
    | setApprovalForAll operator approved =>
        obtain ⟨-, h⟩ := Option.ite_none_right_eq_some.mp h
        cases h
        rfl

end ArticTrader.TokenStandard
