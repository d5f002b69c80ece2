import Mathlib.Algebra.Order.Ring.Nat
import Mathlib.Data.List.Basic

/-!
# Names of the modules for routes

The route controller names modules after interfaces and link layer addresses: the
route module of an interface, and the modules that write the address of a next hop
into packets.
-/

namespace Upf.Routing

open List Nat

abbrev Mac := Fin (2 ^ 48)

def hexDigit (n : Nat) : Char :=
  ['0', '1', '2', '3', '4', '5', '6', '7', '8', '9', 'A', 'B', 'C', 'D', 'E', 'F'].getD n '0'

def hexDigits : (digits : Nat) → Nat → List Char
  | 0, _ => []
  | digits + 1, n => hexDigits digits (n / 16) ++ [hexDigit (n % 16)]

def macToHex (mac : Mac) : String := String.ofList (hexDigits 12 mac)

def getRouteModuleName (interface : String) : String := interface ++ "Routes"

def getUpdateModuleName (routeModuleName : String) (mac : Mac) : String :=
  routeModuleName ++ "DstMAC" ++ macToHex mac

def getMergeModuleName (interface : String) : String := interface ++ "Merge"

theorem hexDigit_inj : ∀ n < 16, ∀ m < 16, hexDigit n = hexDigit m → n = m := by decide

theorem hexDigit_ne : ∀ n < 16, hexDigit n ≠ 's' := by decide

@[simp] theorem hexDigits_length (digits n : Nat) : (hexDigits digits n).length = digits := by
  induction digits generalizing n with
  | zero => rfl
  | succ digits ih => rw [hexDigits, length_append, ih, length_singleton]

theorem hexDigits_inj {digits n m : Nat} (hn : n < 16 ^ digits) (hm : m < 16 ^ digits)
    (h : hexDigits digits n = hexDigits digits m) : n = m := by
  induction digits generalizing n m with
  | zero => omega
  | succ digits ih =>
    rw [hexDigits, hexDigits] at h
    rcases append_inj' h rfl with ⟨hrest, hlast⟩
    rw [Nat.pow_succ] at hn hm
    have hdiv := ih (by omega) (by omega) hrest
    have hmod := hexDigit_inj _ (mod_lt n (by decide)) _ (mod_lt m (by decide))
      (singleton_inj.mp hlast)
    omega

theorem getRouteModuleName_inj {i j : String}
    (h : getRouteModuleName i = getRouteModuleName j) : i = j := by
  have hlist := congrArg String.toList h
  rw [getRouteModuleName, getRouteModuleName, String.toList_append, String.toList_append] at hlist
  exact String.toList_inj.mp (append_cancel_right hlist)

theorem getUpdateModuleName_inj {i j : String} {mac mac' : Mac}
    (h : getUpdateModuleName i mac = getUpdateModuleName j mac') : i = j ∧ mac = mac' := by
  have hlist := congrArg String.toList h
  simp only [getUpdateModuleName, macToHex, String.toList_append, String.toList_ofList] at hlist
  rcases append_inj' hlist (by simp) with ⟨hstem, hdigits⟩
  refine ⟨String.toList_inj.mp (append_cancel_right hstem), Fin.ext ?_⟩
  exact hexDigits_inj mac.isLt mac'.isLt hdigits

theorem getUpdateModuleName_ne_route (i j : String) (mac : Mac) :
    getUpdateModuleName i mac ≠ getRouteModuleName j := by
  intro h
  have hlast := congrArg (fun s => s.toList.getLast?) h
  simp only [getUpdateModuleName, getRouteModuleName, macToHex, String.toList_append,
    String.toList_ofList, hexDigits, getLast?_append] at hlast
  have hdigit := hexDigit_ne (mac.val % 16) (mod_lt _ (by decide))
  simp at hlast
  exact hdigit hlast

end Upf.Routing
