import WireContract.Emit.Scope

/-!
# Aliases

An alias becomes a type of its own around the stored type of its target, encoded as the target is.
-/

namespace WireContract.Emit

open Rust Schema

/-- The type of an alias' content. -/
def targetType (scope : Scope) (a : Alias) : Ty :=
  scope.stored a.target (scope.contract.isBoxed a.name "")

/-- The items of an alias. -/
def aliasItems (scope : Scope) (a : Alias) : List Item :=
  let name := Ident.ofName a.name.name
  let self := ownType a.name.name
  let target := targetType scope a
  let orderable := scope.contract.isOrderable a.name
  let default := scope.contract.registry.isCollection a.target
  let content := Expr.field (.var "self") "0"
  let selfCall (e : Expr) : Body := .ofExpr (.call (.var "Self") [e])
  let convert := Ty.named (.std ["convert", "Into"]) [] [target]
  let targetItem := Ty.ofPath (.ofWords ["Self", "Target"])
  [ .struct (docLines a.docs ++ [deriveAttr orderable default true,
      .ofArgs "serde" [.path (.ofWords ["transparent"])]]) true name (.single target),
    .impl [] none self
      [ getter ["Wraps a value."]
          (signature "new" none [("value", .some convert)] (some selfType))
          (selfCall (.method (.var "value") "into" [])),
        getter ["Returns the wrapped value."]
          (signature "into_inner" (some .byValue) [] (some target))
          (.ofExpr content) ],
    .impl [] (some (.named (.std ["convert", "From"]) [] [target])) self
      [ .function [] false (signature "from" none [("value", target)] (some selfType))
          (selfCall (.var "value")) ],
    .impl [] (some (.ofPath (.std ["ops", "Deref"]))) self
      [ .type "Target" target,
        .function [] false (signature "deref" (some .byRef) [] (some (.ref targetItem)))
          (.ofExpr (.reference false content)) ],
    .impl [] (some (.ofPath (.std ["ops", "DerefMut"]))) self
      [ .function [] false (signature "deref_mut" (some .byRefMut) [] (some (.refMut targetItem)))
          (.ofExpr (.reference true content)) ] ]

end WireContract.Emit
