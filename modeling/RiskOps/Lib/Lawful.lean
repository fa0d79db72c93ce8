import Mathlib

/-!
# RiskOps.Lib.Lawful

Lawful equality tests under fixed names. Whether a text is in a list of texts is decided with them,
and every module that asks for one finds the same one.
-/

namespace RiskOps.Lib

instance lawfulBEqChars : LawfulBEq (List Char) := inferInstance

instance lawfulBEqCodes : LawfulBEq (List Nat) := inferInstance

instance lawfulBEqPair : LawfulBEq (List Char × List Char) := inferInstance

end RiskOps.Lib
