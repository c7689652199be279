import CommandCenter.Core.Policy
import CommandCenter.Library.Html
import CommandCenter.Storage.Model

/-!
# The user page of the panel

`render_users`, `ago`, `err_banner` and `html_escape` of `crates/bnetccd/src/status.rs` and
`UserSummary` of `storage.rs`. The page is made from a format string, here cut at its arguments and
at the ends of its lines.
-/

namespace CommandCenter.Daemon.UserPage

open Rust CommandCenter.Core Library

structure UserSummary where
  id : AccountId
  name : Text
  createdAt : Nat
  lastLogin : Option Nat
  wins : Nat
  losses : Nat
  flags : UInt32

/-- `str::replace` of one character. -/
def replace (s : Text) (c : Char) (by_ : Text) : Text :=
  s.flatMap fun d => if d = c then by_ else [d]

def htmlEscape (s : Text) : Text :=
  replace (replace (replace (replace s '&' "&amp;".toList) '<' "&lt;".toList) '>' "&gt;".toList)
    '"' "&quot;".toList

/-- `Display` of an integer. -/
def decimal (n : Nat) : Text := Nat.toDigits 10 n

/-- `nowMs` is what `now_ms` returns. -/
def ago (nowMs secs : Nat) : Text :=
  if secs = 0 then "never".toList
  else if nowMs / 1000 - secs < 90 then "just now".toList
  else if nowMs / 1000 - secs < 3600 then decimal ((nowMs / 1000 - secs) / 60) ++ "m ago".toList
  else if nowMs / 1000 - secs < 86400 then
    decimal ((nowMs / 1000 - secs) / 3600) ++ "h ago".toList
  else decimal ((nowMs / 1000 - secs) / 86400) ++ "d ago".toList

def errBanner (msg : Text) : Text :=
  if msg.isEmpty then []
  else "<div class=\"err\">".toList ++ htmlEscape msg ++ "</div>".toList

def flashHtml : Option (Bool × Text) → Text
  | some (true, m) => "<p class=\"ok\">".toList ++ htmlEscape m ++ "</p>".toList
  | some (false, m) => errBanner m
  | none => []

/-! ## Rows -/

def ck (on : Bool) : Text := if on then "checked".toList else []

/-- `user_flags::ADMIN`, `user_flags::SPEAKER` and `user_flags::SPECIAL_GUEST`. -/
def adminFlag : UInt32 := 0x08

def speakerFlag : UInt32 := 0x04

def guestFlag : UInt32 := 0x40

def badge (staff : Bool) : Text :=
  if staff then " <span class=\"tag\">staff</span>".toList else []

def idField (id : AccountId) : Text :=
  "<input type=\"hidden\" name=\"id\" value=\"".toList ++ decimal id ++ "\">".toList

def checkbox (name : Text) (on : Bool) (label : Text) : Text :=
  "<label><input type=\"checkbox\" name=\"".toList ++ name ++ "\" ".toList ++ ck on ++
    "> ".toList ++ label ++ "</label>\n    ".toList

/-- What stands between a name and the first form that asks for confirmation. -/
def cells (nowMs : Nat) (u : UserSummary) : Text := List.flatten [
  "</b>".toList,
  badge (u.flags &&& adminFlag ≠ 0),
  "<div class=\"sub2\">created ".toList,
  ago nowMs u.createdAt,
  "</div></td>\n<td>".toList,
  ago nowMs (u.lastLogin.getD 0),
  "</td>\n<td class=\"num\">".toList,
  decimal u.wins,
  "/".toList,
  decimal u.losses,
  "</td>\n<td>\n  <form method=\"post\" action=\"/users/flags\" class=\"inline\">\n    ".toList,
  idField u.id,
  "\n    ".toList,
  checkbox "staff".toList (u.flags &&& adminFlag ≠ 0) "Staff".toList,
  checkbox "speaker".toList (u.flags &&& speakerFlag ≠ 0) "Speaker".toList,
  checkbox "guest".toList (u.flags &&& guestFlag ≠ 0) "Guest".toList,
  "<button type=\"submit\">Save</button>\n  </form>\n</td>\n<td>\n  ".toList]

def confirmScript (message : Text) : Text := "return confirm('".toList ++ message ++ "')".toList

/-- The opening tag of a form that asks for confirmation. -/
def confirmForm (action message : Text) : Text :=
  "<form method=\"post\" action=\"".toList ++ action ++
    "\" class=\"inline\" onsubmit=\"".toList ++ confirmScript message ++ "\">".toList

def resetMessage (name : Text) : Text := "Reset the password for ".toList ++ name ++ "?".toList

def deleteMessage (name : Text) : Text :=
  "Permanently delete ".toList ++ name ++ "? This cannot be undone.".toList

def resetFields (u : UserSummary) : Text := List.flatten [
  "\n    ".toList,
  idField u.id,
  "\n    ".toList,
  "<input type=\"password\" name=\"new_password\" placeholder=\"new password\"".toList ++
    " autocomplete=\"new-password\">".toList,
  "\n    <button type=\"submit\">Reset</button>\n  </form>\n  ".toList]

def deleteFields (u : UserSummary) : Text := List.flatten [
  "\n    ".toList,
  idField u.id,
  "\n    <button type=\"submit\" class=\"danger\">Delete</button>\n  </form>\n</td>\n</tr>".toList]

def userRow (nowMs : Nat) (u : UserSummary) : Text :=
  "<tr>\n<td><b>".toList ++ htmlEscape u.name ++ cells nowMs u ++
    confirmForm "/users/reset".toList (resetMessage (htmlEscape u.name)) ++ resetFields u ++
    confirmForm "/users/delete".toList (deleteMessage (htmlEscape u.name)) ++ deleteFields u

/-- The row of a page without accounts. -/
def emptyRow (users : List UserSummary) : Text :=
  if users.isEmpty then
    "<tr><td colspan=\"5\" class=\"empty\">No accounts on this page.</td></tr>".toList
  else []

/-! ## The page -/

def usersPageSize : UInt64 := 50

/-- The lines before the flash. -/
def pageTop : List Text := [
  "<!doctype html><html lang=\"en\"><head><meta charset=\"utf-8\">\n".toList,
  "<meta name=\"viewport\" content=\"width=device-width, initial-scale=1\">".toList,
  "<title>Users — Command Center</title>\n<style>\n".toList,
  ":root \x7b color-scheme: light dark; --bg:#0f1115; --card:#1a1d24; --fg:#e6e8ec; ".toList,
  "--muted:#9aa0aa; --accent:#5aa9e6; --line:#2a2e37; --err:#e06a6a; --ok:#5ac47d; ".toList,
  "--danger:#a33; \x7d\n* \x7b box-sizing:border-box; \x7d\n".toList,
  "body \x7b margin:0; background:var(--bg); color:var(--fg); ".toList,
  "font:14px/1.5 -apple-system,BlinkMacSystemFont,\"Segoe UI\",system-ui,sans-serif; \x7d\n".toList,
  "header \x7b padding:16px 20px; border-bottom:1px solid var(--line); display:flex; ".toList,
  "align-items:baseline; gap:12px; \x7d\nheader h1 \x7b font-size:16px; margin:0; \x7d\n".toList,
  "header nav \x7b margin-left:auto; \x7d header nav a \x7b color:var(--accent); ".toList,
  "text-decoration:none; font-size:13px; \x7d\nmain \x7b padding:20px; \x7d\n".toList,
  "table \x7b width:100%; border-collapse:collapse; background:var(--card); ".toList,
  "border:1px solid var(--line); border-radius:10px; overflow:hidden; \x7d\n".toList,
  "td,th \x7b text-align:left; padding:10px 14px; border-bottom:1px solid var(--line); ".toList,
  "vertical-align:middle; \x7d\nth \x7b color:var(--muted); font-weight:500; ".toList,
  "font-size:12px; text-transform:uppercase; letter-spacing:.04em; \x7d\n".toList,
  "tr:last-child td \x7b border-bottom:none; \x7d\n".toList,
  ".sub2 \x7b color:var(--muted); font-size:12px; \x7d\n".toList,
  ".num \x7b font-variant-numeric:tabular-nums; \x7d\n".toList,
  ".empty \x7b color:var(--muted); padding:16px; \x7d\n".toList,
  ".tag \x7b background:rgba(90,169,230,.15); color:var(--accent); ".toList,
  "border:1px solid var(--accent); border-radius:4px; font-size:11px; padding:1px 5px; ".toList,
  "margin-left:6px; \x7d\nform.inline \x7b display:inline-flex; align-items:center; ".toList,
  "gap:6px; margin:0 8px 0 0; \x7d\nform.inline label \x7b color:var(--fg); ".toList,
  "font-size:12px; display:inline-flex; align-items:center; gap:3px; margin:0; ".toList,
  "text-transform:none; letter-spacing:0; \x7d\n".toList,
  "input[type=password] \x7b padding:5px 8px; border-radius:6px; ".toList,
  "border:1px solid var(--line); background:#0f1115; color:var(--fg); width:130px; \x7d\n".toList,
  "button \x7b padding:5px 10px; border:none; border-radius:6px; ".toList,
  "background:var(--accent); color:#04121f; font-weight:600; font-size:12px; ".toList,
  "cursor:pointer; \x7d\nbutton.danger \x7b background:var(--danger); color:#fff; \x7d\n".toList,
  ".err \x7b background:rgba(224,106,106,.12); border:1px solid var(--err); ".toList,
  "color:var(--err); padding:9px 12px; border-radius:8px; margin-bottom:12px; \x7d\n".toList,
  ".ok \x7b background:rgba(90,196,125,.12); border:1px solid var(--ok); ".toList,
  "color:var(--ok); padding:9px 12px; border-radius:8px; margin-bottom:12px; \x7d\n".toList,
  ".pager \x7b margin-top:16px; display:flex; gap:16px; align-items:center; \x7d\n".toList,
  ".pager a \x7b color:var(--accent); text-decoration:none; \x7d ".toList,
  ".pager .disabled \x7b color:var(--muted); \x7d\n</style></head><body>\n".toList,
  "<header><h1>Users</h1><nav><a href=\"/\">Dashboard</a> · ".toList,
  "<a href=\"/settings\">Settings</a> · <a href=\"/help\">Help</a></nav></header>\n".toList,
  "<main>\n".toList]

/-- The lines between the flash and the rows. -/
def tableTop : List Text := [
  "\n<table>\n<tr><th>Account</th><th>Last login</th><th>W/L</th>".toList,
  "<th>Flags (apply at next login)</th><th>Password / Delete</th></tr>\n".toList]

def offsetLink (offset : UInt64) (label : Text) : Text :=
  "<a href=\"".toList ++ ("/users?offset=".toList ++ decimal offset.toNat) ++ "\">".toList ++
    label ++ "</a>".toList

/-- `prev` saturates at zero. -/
def prevLink (offset : UInt64) : Text :=
  if 0 < offset then
    offsetLink (if usersPageSize ≤ offset then offset - usersPageSize else 0) "‹ Prev".toList
  else "<span class=\"disabled\">‹ Prev</span>".toList

def nextLink (offset : UInt64) (hasNext : Bool) : Text :=
  if hasNext then offsetLink (offset + usersPageSize) "Next ›".toList
  else "<span class=\"disabled\">Next ›</span>".toList

def pageBottom (offset : UInt64) (hasNext : Bool) : Text :=
  "\n</table>\n<div class=\"pager\">".toList ++ prevLink offset ++ nextLink offset hasNext ++
    "<span class=\"sub2\">showing from #".toList ++ decimal (offset + 1).toNat ++
    "</span></div>\n</main></body></html>".toList

/-- Build the page for one loaded slice of accounts. -/
def renderUsers (nowMs : Nat) (users : List UserSummary) (offset : UInt64) (hasNext : Bool)
    (flash : Option (Bool × Text)) : Text :=
  pageTop.flatten ++ flashHtml flash ++ tableTop.flatten ++ emptyRow users ++
    users.flatMap (userRow nowMs) ++ pageBottom offset hasNext

end CommandCenter.Daemon.UserPage
