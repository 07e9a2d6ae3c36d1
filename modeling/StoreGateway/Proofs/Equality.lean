import StoreGateway.Filter.Basic

/-! Equality of filters can be decided. -/

namespace StoreGateway

instance decidableEqExcept {ε α : Type} [DecidableEq ε] [DecidableEq α] : DecidableEq (Except ε α)
  | .ok a, .ok b => decidable_of_iff (a = b) (by simp)
  | .error e, .error e' => decidable_of_iff (e = e') (by simp)
  | .ok _, .error _ => isFalse nofun
  | .error _, .ok _ => isFalse nofun

mutual

def Operand.decEq : (a b : Operand) → Decidable (a = b)
  | .absent, .absent => isTrue rfl
  | .literal raw, .literal other =>
    decidable_of_iff (raw = other) (by simp)
  | .param name, .param other => decidable_of_iff (name = other) (by simp)
  | .call raw, .call other => decidable_of_iff (raw = other) (by simp)
  | .list items, .list others =>
    match Operand.decEqAll items others with
    | isTrue same => isTrue (by rw [same])
    | isFalse other => isFalse (by simpa using other)
  | .absent, .literal _ | .absent, .param _ | .absent, .call _ | .absent, .list _
  | .literal _, .absent | .literal _, .param _ | .literal _, .call _ | .literal _, .list _
  | .param _, .absent | .param _, .literal _ | .param _, .call _ | .param _, .list _
  | .call _, .absent | .call _, .literal _ | .call _, .param _ | .call _, .list _
  | .list _, .absent | .list _, .literal _ | .list _, .param _ | .list _, .call _ => isFalse nofun

def Operand.decEqAll : (as bs : List Operand) → Decidable (as = bs)
  | [], [] => isTrue rfl
  | [], _ :: _ => isFalse nofun
  | _ :: _, [] => isFalse nofun
  | a :: as, b :: bs =>
    match Operand.decEq a b, Operand.decEqAll as bs with
    | isTrue first, isTrue rest => isTrue (by rw [first, rest])
    | isFalse other, _ => isFalse fun same => other (List.cons.inj same).1
    | _, isFalse other => isFalse fun same => other (List.cons.inj same).2

end

instance : DecidableEq Operand := Operand.decEq

deriving instance DecidableEq for Comparison

mutual

def Filter.decEq : (a b : Filter) → Decidable (a = b)
  | .test c, .test d => decidable_of_iff (c = d) (by simp)
  | .combine op fs, .combine other gs =>
    match instDecidableEqConnective op other, Filter.decEqAll fs gs with
    | isTrue first, isTrue rest => isTrue (by rw [first, rest])
    | isFalse other, _ => isFalse (by simp [other])
    | _, isFalse other => isFalse (by simp [other])
  | .test _, .combine _ _ => isFalse nofun
  | .combine _ _, .test _ => isFalse nofun

def Filter.decEqAll : (fs gs : List Filter) → Decidable (fs = gs)
  | [], [] => isTrue rfl
  | [], _ :: _ => isFalse nofun
  | _ :: _, [] => isFalse nofun
  | f :: fs, g :: gs =>
    match Filter.decEq f g, Filter.decEqAll fs gs with
    | isTrue first, isTrue rest => isTrue (by rw [first, rest])
    | isFalse other, _ => isFalse fun same => other (List.cons.inj same).1
    | _, isFalse other => isFalse fun same => other (List.cons.inj same).2

end

instance : DecidableEq Filter := Filter.decEq

end StoreGateway
