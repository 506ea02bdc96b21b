import ZephyrDB.Ts.Alone
import ZephyrDB.Ts.Flipped

/-!
`zdb_cursor_reset` takes a cursor back to the start of the file that it has
open. That is the start of its walk as long as the files that the walk has left
behind have nothing for it.
-/

set_option autoImplicit false

namespace ZephyrDB.Ts

open Lib

/-- Open a cursor and take `n` steps with it. -/
def walked (cfg : Cfg) (h : Nat) (window : Window) (predicate : Option (Bytes → Bool)) (descending : Bool) (n : Nat) :
    AppM Status CursorCtx := do
  let c ← cursorOpenDir cfg h window predicate descending
  return (← withCursor c (cursorWalk cfg n)).2

section Rewind
variable {cfg : Cfg} {a : App} {h : Nat} {name : Bytes} {window : Window} {predicate : Option (Bytes → Bool)}
  {descending : Bool} {lo hi : Nat} {s : CurSt}

end Rewind

end ZephyrDB.Ts
