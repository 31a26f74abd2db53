import CurveLock.Curve.Named
import CurveLock.Proofs.Number.Primality

/-!
# The field and the order of every curve are prime

`Curve.certificate` lists the applications of Pocklington's test that lead from small primes to the
prime of the field and the order of a curve.
-/

namespace CurveLock

namespace Curve

/-- A certificate for the prime of the field and the order of a curve. -/
def certificate : Curve → Certificate
  | .secp192r1 =>
    [⟨8413201, 5, [(41, 1), (3, 3), (5, 2)]⟩,
     ⟨252396031, 2, [(8413201, 1)]⟩,
     ⟨455827231987, 2, [(252396031, 1)]⟩,
     ⟨5933177618131140283, 2, [(455827231987, 1)]⟩,
     ⟨288626509448065367648032903, 2, [(5933177618131140283, 1)]⟩,
     ⟨275729, 2, [(907, 1)]⟩,
     ⟨54251, 2, [(5, 3), (31, 1)]⟩,
     ⟨108341181769254293, 2, [(275729, 1), (54251, 1)]⟩,
     ⟨prime .secp192r1, 2,
      [(288626509448065367648032903, 1), (108341181769254293, 1)]⟩,
     ⟨51419, 2, [(547, 1)]⟩,
     ⟨7532705587894727, 2, [(51419, 1), (4127, 1)]⟩,
     ⟨3433859179316188682119986911, 2, [(7532705587894727, 1)]⟩,
     ⟨46245989, 2, [(6829, 1)]⟩,
     ⟨54623, 2, [(881, 1)]⟩,
     ⟨7244839476697597, 2, [(46245989, 1), (54623, 1)]⟩,
     ⟨9564682313913860059195669, 2, [(7244839476697597, 1)]⟩,
     ⟨order .secp192r1, 2,
      [(3433859179316188682119986911, 1), (9564682313913860059195669, 1)]⟩]
  | .secp224r1 =>
    [⟨16657, 2, [(347, 1)]⟩,
     ⟨166571, 2, [(16657, 1)]⟩,
     ⟨2998279, 2, [(166571, 1)]⟩,
     ⟨67280421310721, 3, [(2998279, 1), (373, 1)]⟩,
     ⟨prime .secp224r1, 11,
      [(2, 96), (67280421310721, 1)]⟩,
     ⟨11105363, 2, [(10909, 1)]⟩,
     ⟨821796863, 2, [(11105363, 1)]⟩,
     ⟨432621809776543, 2, [(821796863, 1)]⟩,
     ⟨136401162692544977256234449, 2, [(432621809776543, 1)]⟩,
     ⟨34646440928557194402992574983797, 2, [(136401162692544977256234449, 1)]⟩,
     ⟨375503554633724504423937478103159147573209, 2, [(34646440928557194402992574983797, 1)]⟩,
     ⟨50520606258875818707470860153287666700917696099933389351507, 2,
      [(375503554633724504423937478103159147573209, 1)]⟩,
     ⟨order .secp224r1, 2,
      [(50520606258875818707470860153287666700917696099933389351507, 1)]⟩]
  | .secp256r1 =>
    [⟨704251, 2, [(313, 1), (5, 3)]⟩,
     ⟨78283, 2, [(4349, 1)]⟩,
     ⟨46076956964474543, 2, [(704251, 1), (78283, 1)]⟩,
     ⟨66417393611, 2, [(3677, 1), (197, 1)]⟩,
     ⟨11290956913871, 2, [(66417393611, 1)]⟩,
     ⟨774023187263532362759620327192479577272145303, 2,
      [(46076956964474543, 1), (11290956913871, 1)]⟩,
     ⟨835945042244614951780389953367877943453916927241, 2,
      [(774023187263532362759620327192479577272145303, 1)]⟩,
     ⟨prime .secp256r1, 2,
      [(835945042244614951780389953367877943453916927241, 1)]⟩,
     ⟨155317, 2, [(43, 2)]⟩,
     ⟨191039911, 2, [(155317, 1)]⟩,
     ⟨208150935158385979, 2, [(191039911, 1), (3023, 1)]⟩,
     ⟨2624747550333869278416773953, 2, [(208150935158385979, 1)]⟩,
     ⟨104471, 2, [(337, 1)]⟩,
     ⟨3969899, 2, [(104471, 1)]⟩,
     ⟨1002328039319, 2, [(3969899, 1)]⟩,
     ⟨order .secp256r1, 2,
      [(2624747550333869278416773953, 1), (1002328039319, 1)]⟩]
  | .secp384r1 =>
    [⟨363557, 2, [(937, 1)]⟩,
     ⟨532247449, 2, [(363557, 1)]⟩,
     ⟨44925942675193, 2, [(532247449, 1)]⟩,
     ⟨35581458644053887931343, 2, [(44925942675193, 1)]⟩,
     ⟨23964610537191310276190549303, 2, [(35581458644053887931343, 1)]⟩,
     ⟨862725979338887169942859774909, 2, [(23964610537191310276190549303, 1)]⟩,
     ⟨20705423504133292078628634597817, 2, [(862725979338887169942859774909, 1)]⟩,
     ⟨413244619895455989650825325680172591660047, 2, [(20705423504133292078628634597817, 1)]⟩,
     ⟨12397338596863679689524759770405177749801411, 2,
      [(413244619895455989650825325680172591660047, 1)]⟩,
     ⟨21407, 2, [(139, 1), (11, 1)]⟩,
     ⟨246608641, 2, [(21407, 1)]⟩,
     ⟨105957871, 2, [(881, 1), (211, 1)]⟩,
     ⟨529709925838459440593, 2, [(246608641, 1), (105957871, 1)]⟩,
     ⟨19173790298027098165721053155794528970226934547887232785722672956982046098136719667167519737147526097, 2,
      [(12397338596863679689524759770405177749801411, 1), (529709925838459440593, 1)]⟩,
     ⟨prime .secp384r1, 2,
      [(19173790298027098165721053155794528970226934547887232785722672956982046098136719667167519737147526097, 1)]⟩,
     ⟨272109983, 2, [(421, 1), (233, 1)]⟩,
     ⟨228572385721, 2, [(272109983, 1)]⟩,
     ⟨23314383343543, 2, [(228572385721, 1)]⟩,
     ⟨426632512014427833817, 2, [(23314383343543, 1)]⟩,
     ⟨1495199339761412565498084319, 2, [(426632512014427833817, 1)]⟩,
     ⟨17942392077136950785977011829, 2, [(1495199339761412565498084319, 1)]⟩,
     ⟨9863677, 2, [(881, 1), (311, 1)]⟩,
     ⟨37344768852931, 2, [(9863677, 1)]⟩,
     ⟨55942463741690639, 2, [(37344768852931, 1)]⟩,
     ⟨1059392654943455286185473617842338478315215895509773412096307, 2,
      [(17942392077136950785977011829, 1), (55942463741690639, 1)]⟩,
     ⟨3055465788140352002733946906144561090641249606160407884365391979704929268480326390471, 2,
      [(1059392654943455286185473617842338478315215895509773412096307, 1)]⟩,
     ⟨order .secp384r1, 2,
      [(3055465788140352002733946906144561090641249606160407884365391979704929268480326390471, 1)]⟩]
  | .secp521r1 =>
    [⟨9211861, 2, [(2437, 1), (3, 3)]⟩,
     ⟨24098228377, 2, [(9211861, 1)]⟩,
     ⟨674750394557, 2, [(24098228377, 1)]⟩,
     ⟨361725589517273017, 2, [(674750394557, 1)]⟩,
     ⟨173308343918874810521923841, 3, [(361725589517273017, 1)]⟩,
     ⟨8620289, 3, [(2, 8), (223, 1)]⟩,
     ⟨2534364967, 2, [(8620289, 1)]⟩,
     ⟨145295143558111, 3, [(2534364967, 1)]⟩,
     ⟨23609, 2, [(227, 1)]⟩,
     ⟨108140989558681, 3, [(23609, 1), (1433, 1)]⟩,
     ⟨2995763, 2, [(397, 1), (7, 3)]⟩,
     ⟨65427463921, 3, [(2995763, 1)]⟩,
     ⟨2400573761, 3, [(1663, 1), (347, 1)]⟩,
     ⟨49481, 2, [(1237, 1)]⟩,
     ⟨308761441, 3, [(49481, 1)]⟩,
     ⟨prime .secp521r1, 3,
      [(173308343918874810521923841, 1), (145295143558111, 1), (108140989558681, 1),
        (65427463921, 1), (2400573761, 1), (308761441, 1)]⟩,
     ⟨17467, 3, [(71, 1), (41, 1)]⟩,
     ⟨19353437, 2, [(17467, 1)]⟩,
     ⟨777241, 2, [(127, 1), (17, 1)]⟩,
     ⟨60018716061994831, 2, [(19353437, 1), (777241, 1)]⟩,
     ⟨4239602065187190872179, 2, [(60018716061994831, 1)]⟩,
     ⟨7427946019382605513260578233234962521, 2, [(4239602065187190872179, 1)]⟩,
     ⟨15994076126984618329123851002118749004583184815459808099, 2,
      [(7427946019382605513260578233234962521, 1)]⟩,
     ⟨3636410625392624440351547907325502812950802686368714273274221490761556277859337865760708490235892541081304511, 2,
      [(15994076126984618329123851002118749004583184815459808099, 1)]⟩,
     ⟨3615194794881930010216942559103847593050265703173292383701371712350878926821661243755933835426896058418509759880171943, 2,
      [(3636410625392624440351547907325502812950802686368714273274221490761556277859337865760708490235892541081304511, 1)]⟩,
     ⟨order .secp521r1, 2,
      [(3615194794881930010216942559103847593050265703173292383701371712350878926821661243755933835426896058418509759880171943, 1)]⟩]
  | .secp256k1 =>
    [⟨107590001, 2, [(5, 4), (53, 1)]⟩,
     ⟨20113, 2, [(419, 1)]⟩,
     ⟨1206781, 2, [(20113, 1)]⟩,
     ⟨7240687, 2, [(1206781, 1)]⟩,
     ⟨96557, 2, [(239, 1), (101, 1)]⟩,
     ⟨255515944373312847190720520512484175977, 2, [(107590001, 1), (7240687, 1), (96557, 1)]⟩,
     ⟨205115282021455665897114700593932402728804164701536103180137503955397371, 2,
      [(255515944373312847190720520512484175977, 1)]⟩,
     ⟨prime .secp256k1, 2,
      [(205115282021455665897114700593932402728804164701536103180137503955397371, 1)]⟩,
     ⟨1627771, 2, [(1871, 1)]⟩,
     ⟨297159362677, 2, [(1627771, 1)]⟩,
     ⟨28181, 2, [(1409, 1)]⟩,
     ⟨545358713, 2, [(28181, 1)]⟩,
     ⟨29047611873442575647497758179, 2, [(297159362677, 1), (545358713, 1)]⟩,
     ⟨341948486974166000522343609283189, 2, [(29047611873442575647497758179, 1)]⟩,
     ⟨44706919, 2, [(9349, 1)]⟩,
     ⟨120233, 2, [(113, 1), (19, 1)]⟩,
     ⟨174723607534414371449, 2, [(44706919, 1), (120233, 1)]⟩,
     ⟨order .secp256k1, 2,
      [(341948486974166000522343609283189, 1), (174723607534414371449, 1)]⟩]

variable (c : Curve)

theorem check_certificate : Certificate.check [] c.certificate = true := by
  cases c <;> decide +kernel

theorem prime_of_mem_certificate {p : ℕ} (h : p ∈ c.certificate.map Certificate.Entry.number) :
    p.Prime :=
  Certificate.prime_of_check (by simp) c.check_certificate h

/-- **The field of every curve is prime.** -/
theorem prime_prime : c.prime.Prime :=
  prime_of_mem_certificate c (by cases c <;> decide +kernel)

/-- **The order of every curve is prime.** -/
theorem prime_order : c.order.Prime :=
  prime_of_mem_certificate c (by cases c <;> decide +kernel)

end Curve

end CurveLock
