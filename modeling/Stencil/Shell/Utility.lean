import Stencil.Shell.Utility.Arguments
import Stencil.Shell.Utility.Compare
import Stencil.Shell.Utility.Edit
import Stencil.Shell.Utility.Expression
import Stencil.Shell.Utility.Find
import Stencil.Shell.Utility.Grep
import Stencil.Shell.Utility.Selection
import Stencil.Shell.Utility.Sequence
import Stencil.Shell.Utility.Sums
import Stencil.Shell.Utility.Words

/-! Programs outside the shell, each as what it does to its input and to the directory. -/
namespace Stencil.Shell.Utility

/-- The programs by their names. -/
def programs : List (String × (List Text → Running Nat)) :=
  [("true", fun _ => pure 0), ("false", fun _ => pure 1),
    ("cat", cat), ("tac", tac), ("rev", rev), ("head", head), ("tail", tail), ("wc", wc),
    ("tee", tee), ("fold", fold), ("nl", nl), ("paste", paste), ("comm", comm),
    ("cut", cut), ("sort", sort), ("uniq", uniq), ("tr", tr),
    ("sed", sed), ("seq", seq), ("factor", factor), ("expr", expr),
    ("basename", basename), ("dirname", dirname), ("realpath", realpath),
    ("readlink", readlink), ("stat", stat), ("ls", ls), ("mkdir", mkdir), ("rmdir", rmdir),
    ("rm", rm), ("touch", touch), ("cp", cp), ("mv", mv), ("ln", ln), ("chmod", chmod),
    ("mktemp", mktemp), ("cmp", cmp), ("diff", diff),
    ("sha256sum", sums "sha256sum" "SHA256" Digest.sha256),
    ("sha1sum", sums "sha1sum" "SHA1" Digest.sha1), ("md5sum", sums "md5sum" "MD5" Digest.md5),
    ("cksum", cksum), ("base64", base64), ("od", od),
    ("echo", echo), ("printf", printf), ("test", condition), ("[", bracket),
    ("printenv", printenv), ("pwd", pwd), ("sleep", sleep), ("yes", yes), ("whoami", whoami),
    ("id", id), ("uname", uname), ("tty", tty), ("sync", fun _ => pure 0),
    ("grep", grep false false), ("egrep", grep true false), ("fgrep", grep false true)]

/-- What the program of a name does with arguments, if there is one. -/
def run? (name : Text) (args : List Text) : Option (Running Nat) :=
  (programs.find? fun (k, _) => k.toList = name).map fun (_, p) => p args

end Stencil.Shell.Utility
