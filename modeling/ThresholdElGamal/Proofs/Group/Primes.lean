import Mathlib.NumberTheory.LucasPrimality
import ThresholdElGamal.Group.Power
import ThresholdElGamal.Proofs.Group.Elliptic

/-! # The group parameters are prime

A chain of elliptic curves climbs from a prime of nine digits to the order `q`. Since `q` is
prime, the element `-2`, which has neither of the orders two and `q`, shows that `p = 2 q + 1` is.
-/

namespace ThresholdElGamal

theorem pow_add_pow_lt_order : 2 ^ 256 + 2 ^ 256 < order := by
  decide +kernel

theorem modulus_eq : modulus = order * 2 + 1 := by
  decide +kernel

theorem two_pow_order : (2 : ZMod modulus) ^ order = 1 := by
  have hpow : powMod modulus 2 order = 1 % modulus := by decide +kernel
  rw [powMod_eq] at hpow
  exact_mod_cast (ZMod.natCast_eq_natCast_iff' _ _ _).2 hpow

set_option maxRecDepth 100000 in
/-- The curves and points that lead up to the order, the smallest prime first. -/
def orderChain : Elliptic.Chain 137186449 where
  steps := [
  ⟨0x3009f4b91,
    0x215c45fe8,
    0xd8d13f47⟩,
  ⟨0x214077d891d77054f,
    0x27343586c2feebb0,
    0xf1eeac8968d2ad3d⟩,
  ⟨0x2a45ffec43cc9ee1ca25cd393607ade7,
    0x11f05372a1807c37b3850a3b4638bbd3,
    0x7689880dda64d9d8bb85e8a3d42cea3⟩,
  ⟨0x3ac1bd1ac97869b177cf89ef47e7c35e722e3b9d7147286322b60877,
    0x18668be7b1b6123f00f2a0c2be9dbeb9f97fca7da07ab37cd8cb807c,
    0x19bde0c05781d798cae096ae2fc8277cf961e8c9736c627cd19824f6⟩,
  ⟨0x2c0ac0f00d2a061faf4c499ee2e4dbd589b931f324ada7c6155b51b3e0883301d6e666adda0af9,
    0x19e6f1e7044ee717481344d2967e8d96293f01671dc3daeb220bf9a2ea30f365a2de08ae02693a,
    0x12834efd1904f1d88740274573dbb87f9481fcc2d3496dd1f3e709ffd5a809abf4185b1e25e620⟩,
  ⟨0x63c677d2d8a84b000da9bd33a43ed93bcc117ef8604d7c6490d9dbbec318d2783462e820258724c9e8e273fc80d53dde1,
    0x598428a2f971bfc0334727c70ff6c3142b8a028a1d262092d10cce6d9c490bb294116c93d158a6b3b0e0c51314bb1f6f2,
    0x3230679a6e1da40f7207a5b47a70ddf41e587a3a68215f98b814357fb0443acf639d11eaf8420c7d9e3326e8659c51c07⟩,
  ⟨0x117945b1d0008f0f9185e7ea0665465f8ab9e1bf8f993160d370a7b47b7b1c5b31c4322b790e1e3ce59bdfb678fcacd5fda2a8328256d32dce2573,
    0x10890d3180e47ab680c9c24e84467ec68f292ea9d7a8e909623ad3a04272c0dd4bb4145f56f56514b73b8b4a78e424205580e79d531172941b2f1b,
    0x97d8126d854f4b8545708d4e0c1daa3a65e3bd3ddcfedd6f36f842208128d247082e12ab210e17641c5fd779e155bc9f633c3c3ebf1e3a3139880⟩,
  ⟨0x8698c9898d0b93987f4a85cf3f7d015c22688d912a7c55a5418d8d872dade2a0a0452a84b91d4f03c1a5c8cd928d35cd8a339a43a637b01b495f57b21ee12b04461409,
    0x20804b7de003d5329eff8fa835fd537cabb723293d6e2b35797b942976c46405f53a8fbec537d3d0d0f0a29b955b62f251a2102dd4c34d94a2f6dc009069e01c65574,
    0x741b123c297c65ad8ec0c742980016911bf9ca8849a1bd444d24257ea6bfe2120f8d769eb23899110e38f5e8144099c0ba58991d036980314f42ce56adf19d188faf4c⟩,
  ⟨0x9d3698c0189ec6f8511a5a2d239f59cb0d744e4ebf24833c2a619c30e28d1901bb2c1146538cfef4adb440e441c1bd4476190c83b50af112220f35f8273901a10afa84f93879123b97d,
    0x5acc471b6b5dc0f0472d28397789053d4df6d0fdf614d9308c2cce65393391bb0413bbd38687fd6448772a60c96fbfc43ad72db6a8447787f0759383fa4cdda49331f9b2246ba4e57bf,
    0x7cb3873bf8bb2bbf41c554d3e95ad2350cb579493f2b3733e89dd992ec0d4741df1b3285228f3f289fa92f4118d18b98515c456832664b576a4b4be5e48d6fbea2c03932786bd98574c⟩,
  ⟨0x15873295c9d228dd518bff7efaec2c8f4dba93f5dec4390f30ed2d0747681e351a15a8a617bb4993d7b1a7131f0d7553c93d2093f047b4c18c3ad90b6e4a6711296fa0984bcf3c49d3b00696da5ae53716cc411e7100ccc5,
    0x142b2c2778438049577b898e0368c5b98f4c1b578c6261b72ce50459e1898c0b56974e21f984cd41f91dd1cdaba95df25465e41e6fb22bd9d84cc2e876ae63650d9e1e06be5e4686ceaeeed7ba837ce91132fa78e1123d20,
    0x46c47d2c7fe3fb11b2b4b1d6ff9251e8db42d068cd0c6a9cba21e3ad41cfa3e9c5dfa3526af37643380a73174c15ff031b542393f6ea9d1d08902241311032121dcf8f2dd39df1bbc92d695a723e84a3a7e775d32864776⟩,
  ⟨0xb8faeb28c40c9bf1fe5e8ee098cf6d9efaf675cfc3c7b06601c0cf5a0966c676627234543b8ef749fa84ee2d6271a0ec4b1de4a16b2030bd2fc02d2044f59c95018e79047a966c6f83b9f886d107794bafcbb545e95a2f0bfe86339df0582d55f,
    0x71b8825c9e29336b6f1e36d155b3acda059f2592fcc30736b562063e3f68fb82afcf3864b9a9d9961108ed1d2f5ae7bae391fa8a70a0bc8ac5fb23ba62ccd9f3651a0dd70428077b15e14760d46511e8751c8171fe27a94adf43bdb71369130da,
    0x235ebdcee87e612587a8719b1d1e5e323e92e31c0913acd08eedc31e45ab46b19f1c29c188091b351d9229b3605e48298de68dd7b8c41ea7a6e7d933bae7fdc8a92c97b9fd50f6a1ce9bd542b09920913d6faa66d406e7fcd27015ef7c7506876⟩,
  ⟨0x1caefbcde25203cb252b639e632d6e7075af20f474587a96c5578efac170e4c6cc812388fdc3fd5e42f541337c6ee49478c110041796cb85883949597b86aa8f11943079749602c09998f9367c51f6cbe1ee4b1e2f3e7cd7eb856ca1c4ba30e99cd94801e7555,
    0x157e55a99ecf9c66b6fb98dde39036c963dcaee77ce03ce7c25ccf81656e8d31f1d42748eea6bdea7db8b8c73bc4a03b772d8d9e4840c89accec049ff825e94f417133642d2f539b2b4770342e425ff2e5770facdc5e98895279ebdc0485600e0473db0bf13f7,
    0xbc1920b6fa6a88b0d29f2b59b236300a1c85e7d74b616b9411cc486cc8292a0989d4cfc0d465623cf9a3db2da44975c5911af6e42574256dc278ec2dd682f6e14bef73ad5ef2843db384919d0781402e68b112ba582d3a5e4c7cd1aabab0b63c4dd6324a9cb7⟩,
  ⟨0xb0dbbd62683f1ccf3fd95530fe22718c92dc9076304d3c8ab4b411c6e21f92daf636b45cd643839a494ded2bb10769fdd88f8bdc51a125496dae9685c16e45cd54f9ec3a07f38e8e724c2dbb66735373eeea3b8bbfafb0013a2464ed7a40ed9f66dff5d1ce9145e18534e9f6fc1,
    0x90bb4001520b3baf0b7772791f653d7d30f3c727417acef92caa13d90efdc4ad9a161a170af85c34171f3a42025f6e26f4e7086a0c94ee775fea8b61abb9b4e29257289497558968e840513182cd42fb423ffad029775aa6b72b4b0c9665cb3e87c1e0b11905445226cf1a07b59,
    0x6d92222ab8608ff10978b0622183daff781f6c19eaf70fa286466c55dc9e340fb7522ba95ceef445ebddcc78d50a9b0317265742a6dce8ad49fb5f5de14f7408b69db1a2173920b122fa6aed21bdd312cef64b1410e612a59f06748a7f359e052276f6974d6a1de6065828660e⟩,
  ⟨0x1c7f3e285ea843df35a2f543e4473c4b481648ae2fe8afbc05c194d2f5ed06a6512c743596f22deb2b19ed19cd51eec92e9ab114d478ab824efc0706fb89f3a75df96973379a7bfac7b7675bcc999d5da53d24006aaae4931aa26c9bef2e7116c7254c8482dfdb4bde1191871b7f23fbe6a4ae8254be69ddd,
    0xefa7a4ec2f1e7f40bed37ff4bfac16d356273fd4f0c1a6f963b55870e2efaf6786a61efdc6027201a77d57c9c15ea248832ae96e651c97a2ab21ff3f3c71d8041552baa10b05076779eb46650904daf2fc12543f469654d5c6569fd65cf894c87fc8ec268fb4220b97a8deea78f6a504cb1a9c09711730a0,
    0xf6dc095ef569e3ead50220ec2b4ae665c253892f180a725fa8727d53e3806f34eaa3dab21d8f05132a1ce331a1f45d82e67fe9949dac57848f6e259ef6211f0c7fce72c60dcf5cb79b505e324ed588d80572fe202a690c6da9e38a308439b4eb6abddfeb9adcf49199313a3f134a9f05b36d7255facee6ed⟩,
  ⟨0x5b816a129a54bd9d4ae6935ebbeec19908984d3dd9b5fd27f0a313c59d20ce1b5cf50b7e18207001003e3cc9a264185c478fcb838d104601e6e35d1aa5c94fbf30322d54c2a1aabbb217d5d9891113283cdae326deff3c42d78b88c07f027e7c3406fc9d2c5ec5efe4f9b67d28a927abd39d2fe433db3a23a665572250d306364691,
    0x1ca52ce0b1a0bd2aa56d676135184564f5be4a93e4da0627fce3b8778f8075ea3361b1246d7b7f7835d9961e9c2f02f93e435b3d734c72834b152abf59c3fc031c65c1e2cb9a11e1e55ca1db39c60db6bc645b64a23b50fdb7498cdf27eac1f854aca6767489f4424b1fa84a20ceef06e0b4bfc1cd0aed810d48e9d1b509dc61ca1e,
    0x1b61cd0c120755e43b5ecdb59542ee140be324dbfbaf4af5e1cf9b3e85dbf1f8ebb7a2b371d138187c36d0738d117366507c0971e6c6a0ddfe496584479b37d02f926effa12d21c945dc804fc09a446a1e947e5b259201db42e1d69d4f775ed12f63eed2a236ce3e2a3a9a0bf507b9aa498c17d3ba4b4fb06a8fb3d02135cff5d962⟩,
  ⟨0xab30668f4ad2564e16ad207ab049762bbabc0927f1b88c8336db395dca57cf4b2f3a15d96b1cfbdd18ec973d11d0892bb458c93c5501a97ceec903282facd2ac355cacfa7511487c2f0bed0b510d477516ce31c669c6c58c3a0355eb13ce92855bf0d2ce1756a24d5caa48032b49be29d3596c86d31056ce5d9897cbfdd68b5750a0858a5ff37d,
    0x30c3306dcc8b2e813c45a00cc882ef2d248d9cd367d43d2af11d0770b061af77bf4df1bd071748852a68f4f98bcebc101f58c4b6e2421b3ed3fba1c81954b645feb9049f75d826f75360c668c44c2694f5fc3e7e8a7ae73e8be2f3af98b79f2aa659bae47bc3cc356c3446496688de6dbac3f2edc93c6d960dc4bca24cfb2479323e5b81185090,
    0x1c0135d3467260f25db0591112262dbc8c000f826372a426bc20d3b5ab161b7742bb9dfd74e5044095abbc84b16837058d9ebbd904d87cbe27f27886f05751a2d15e8d96c48e3eb392f94fee7a2c10ba57bd768c19ad944e1ecca3c79c4d74a33b292eb18f545943b861e6419de69d6785f1bec8e90ed2ecc947ec2470ebdebcc412f8cd807c7a⟩,
  ⟨0x36edfa7a3bd7be985592b65abbd6f5a58f0367c580412bc15477b97dd4cd1278967e698dd598ab2c85a0108ecee3c064e2e2038d3719fd7a786ddd0703a09f4a5085a2f79a9e56ae2d2640a5af6283f0c9f924e56785732e0d4b3aa72871c5af53ae34d4647a52de9b888804744d755a601c8a713ec5f99c94110b6b4982c8caf1ed2ba98006de2a5b681f8b74e8161a9,
    0x36cd1898faf075d3c665f02656f3da076399043f3e5b52c3ca2508a20f42d5979633b351294059ae964d63c64e6e3696189d6ccf76f86b76aa30073cff7ee529941525cdd6d4d7d13d7352299c7918427807bd8ca1151090c28716980a4d4945b3ac1a1e1a85b235240d0bbe657dfa572f1b143bc59cf4650b452f980fb5454678be71ee4e8c834b7ba2d046e0ddcb071,
    0x24da558cc1451151ca6ce9bfa711fe075461f92a6127b0e7fc21a4b27fe67a7e416fca02ad3fcb286a417876129ef9a12d2444c1be9e9f09484d2774c48148c54804f293dbfdcf7f7e0209b5a0d610b38401acbb2ba2624fcd79e5a702c64b5ae23fde878da41d8c9eb4d38c86371c6dc9e0da6f104543b25df0f4d5be50e3c5a4bc785871b277fc3828622f4c6952bed⟩,
  ⟨0x4cb7ce8ff96261403143243354e495fdeb5e76389f473e4da027433723e06071ad7fa22c1a7418189f4445618320ac3d136ad8906b0c2ec0aba11cabd84b499a162a3b150dac300350b602aa3358950b6325153abfe3f7899c8702f7e2515262d8dd894ae1142cad56918ac83816f098a7c4c30993572dcd22a922c2bd0bea3039552468f6d71903dc9555f345a761a1d53c68f0bff3bba843d,
    0x495edac65ab66af6a07e73158576cd7c7988e70a836876d14ab12161777c1c6c699adf31b50f31e08daf4325d35236c3ce7970816e3066e8e1e8965f40f45866f2d83ccd32c210b7f266473ee226d11b17bf20a6849d45cfcdb4b9dc6e8005e85bdd782a793955d9892a6a565c4804ec3ef98fcfb8be7aa346ed4a877ff360b0214ad5a0c788d2757e6c64e36fafaba696c4b03a9982c5313c4,
    0x14542e435f8f9ef8c512b2806c52d3100efb1a4a4ec6c203ad83acbfeb165430072e9ab89564aa1f972eee38c2347fa46ea9fc75e0ce2c8adbee69c5bc6cef38709034a3cc3ddfe6754f07657eef138545b08b44cadf2734e3120d03a6c6a5b714b3f352a99876d4ca641019263fe8f315603299ee2f86e23a9865033b37cd21c6cd06ebcc16139d7117cb462ec311d78d951e67ba41218b2f1⟩,
  ⟨0x3097dc3ed119513bd0294983c8b80b80259219cb741c5c19a0a55eb8b540ca5b03da16801190f7ea6eddc2043244327b715dda52b2765accb833e112a625e8b307d203c1c0050e6771a9c2462cb895374c4bbc28f95a622f27cea1dc6ee7a2c3f4d50b458bddb32a6293f42c2d8a12aa9371c8fa8923ef9830db4a25f84a37868384464db929542e87a9a4c7e20078fa47bb88d3246c3fb126bd9b81c002cfa55ec7651,
    0x15d4983529d9a0da8c5a94c1309e5e1c8ad0d9cc292ded8a12b5d616b60894ec69b504f7d792d2b575f4917b4cb5ca5d149f3f66d32239c0773d9e13c9303037dbee020bacb510dc1aaf280bd295f854cd040e4c3c7815413a0dcc661b72844ae4ae76fd62ca847ec9208164b571e4c434937d99838fa5396ff1786e78f8e782c6c13ddf9aa0189327a3db6a0d062b70d599f21340b2b0c80c0f71ec301109ab328c49,
    0x1505fb34529d8ec3702f5fea13a01a298135d5450bb98f62787e3579995c01b9d1fb2a619f14f2579f1036abed0e4428cfbc831c0dd6d89047b800d9b4470a82166ec5a792404f00c7f0bbdd5c3ec4975a68e1a497b7cf19e286c40d11fd7739ef282ef1fb0ee5b216b405361e0eb3e72301328623d30d292bb79095b7caac86b17c87e11490155340ad4949ed4569839bc44a3d8021c470a2ae22bd7fef3000e2eedc3⟩,
  ⟨0x10f305e0453306400356d9538889fbfe25161cb8887e8c947da2a12af26caab83a13db7b7f985aef3bbac4b4547bc9cdc942ec1069db5ab6ce9cee9ee824d386f08e2d6cd393fa7dbdf87a39b98a003cf51abc3712de3684bc4e3d681b801f13cd3ad5850d4ab0b555493e5e3ecb9fcae30ffda20437db9db9b7e070d21864d32e2db6f053e6ae55ce0d2f534b2210ae88a0314e860f87c9be3969e925a71a449c5c3ff79f90a326b577003,
    0x195b4d308a05d08b337d132e6c2239c08976032663e6aa2ad4f6fa093c6d68b6c48fdd3ebaacf181a4016f25d07af17cdcf64c0972048d866a4dcc65de92802ab3990e29b421fe2cf3dd24278cd71ea764ac73c957832708404ed99e871e47711701a7863b428d8955d02524674a07dd02b504630f76a54ad892ebc4cddae52ce1e5ac47bb7d8a73b5864753f309111048e7acf09b09e062aceff5195457dc12463059417b54e5264ddde7,
    0x10617c8bc0e39289a7603391d6f65f2018e21a83314ca0d0150865062a54bbe6be5ac240d7a6cd40ebcd905d02df1e538911b74ef8574686b2692a0cc5daa804e208bf113393bc52bd7717b28d2b7907dc11f14139fb0831ed5be6d22afb4f658d284c723f286b329cc1c79d5bcfb512f2bb7e298301f27fd3c466567e79724dad9ea388b0efcf9b66be2517233d798b8f14893dece857738f9e257b9eb740e7da7ff7b2e7e78ec72460b64⟩,
  ⟨0x1dfd3d6760ff96556db4aa203f929b7bb860d8a9cab63e02640df0a6746aad487f85446ae056d739406766db7ae389b7154f0b69f8b68fea2e6db9c64f9f64e5e64fe914f3cfac3fe601e6ad210c88cae260a73ac1940305905c605b726dd9dd3703d1da4712b92d39bd5f513d4c5cb0f0dd018bb934677c986ed2e2f94e393fb8bb18513527ac12b9893c7130590e8729dacb9b6e9020e7eac3d81782eba20b19dfcf96b961f03ad085d1a34214da7,
    0x8ed1082fe41c8572954256e8d97191c017644253f5eaf0a6f3c87baf642a20bd19e261ff1bdf927855d39581dd940ba476b31d03cb779ce72dec2489aea407915d13943b3e42b7247a5641841680df3aa5f5579e0e703b78f564083c71986c5a8f2d63fc5b8d1ade4db09c041c183220f88d21b2f68f41b568ecd2659c4f1e46a25321551d528add5cf57e9fa91897ea371b966f48da1020f8b95fa9ff645ffb1380418f3d5c06b12b1e9d0edd4e1e,
    0x120f12cfbfa27fb50365078f4612db5929ab4abd4f4cc198f1b8c2db96ff376df664d61ffa28459e00b74054bee0208296c307152e7a1d460436c0b8ae6f64cb74f43fa3dee3f8221d30f346a35a53271a232701818c413c16f66f7a8c80906337406b10a340d3c44156aa817651c045e77c387e97b5f815af6f2ce8ca6feb10c15dde44d791cc8bd7097924d8fcab3c1e3e502b9bea3ed0f1944e3b37532334566c76b98014fbb1922bf795e8dc660⟩,
  ⟨0x9a77c2ad536910a0894dcdbbd16359b8a9d8b66763154cee7f16ad17003c66b13790e237e31975eab534c834755fe0ff714901e4b64e38dcdb85dcb340b2f42935a4ce5888932664095c984b9de6d657d4abe9406c0e31d992c1ef69a966573076b905c8943f4d98ad74efe3c1fd30c57b008a95e5a66e50cb5e58be843d1988c4b7e3a74020b6397bc8cdaf535edb43730c02717bfe1bc2b2e227954485afa668db8c7b238d75f14f3c2ce60f965256b1cf5758c4be2d8c9e1,
    0x14f4d5b76af709f352335d0b93ba04f0c164a163961f52b1afde5590573cfeac9b414e4487efa67a1c21f2112c53ade885e2df973b42b4e0a3655c994a988555d460133cb2aacd6a199eccb963d62f100590f5a81e3d2e0d8d3f1c70d38e74ac9adc91d3f6cbe1861969cc7799d38cbee6b043fa269d3e0157b0ba1ff351db74f475f6056a4397978b664ec5554803d3dd29fed9bbe06bb8c0dc1cdee075d795c6cc32a79ca449bfaef10c96c09f5b7538f38a72071201fa920,
    0x3f4944ca24915a0ccc817ed7fa4260f53079269d56253fc6df13ef7d388fea83313e0a713bfba46c7595937e37957f7af75a8ed7d5d19fca4c11f28381f72e3299903c93648bb6c09bd435d1afafb8ace02378af5c4b1666ca908aa21f0fb7005c09da18bb54621067a71ad191ea6ee540a0f849c44d72df387bd62d0f3370e549f2191483eb360bf40e5876b2042f2375cf9f7f36973383829eda4cfdc9f07730f429f4606a5d82352eeeeb95ddba87fec0f6dddc01f38c390⟩,
  ⟨order,
    0x1775ff133b358d97f6f63b630cb61b8dce62a7deb30b90a6249f4b328e44a84e34e177b1d4473ab487fe55955afdb4b9f7c116b41e58f031928888499a989f826617a4b2449277e96354a42c167e8766444c02e44eda95ad074b1a2919f1a27b82041e38925da80cd0dfef210e1f1a3e1d2f909f112f55d719811a42f2dada419e0250e95c5f5f6755161d4b33dcf87b007edda133a32a4dcf42d47cb2215907ecddd0d454b9157027f23a40a969096e118314aa7c22b2886e16c643562713ec,
    0x403e94e8210523bf026219e54ac043e308f6c541947305c6218675fe6bfedb66259a35b5112d88fa42758478de5d0980e435468753c8ad289a2b8e07c3cc83f5bb962d208925d2c483d660f23fbdad9f33a3fa56114a8c5d521b8e0fe600e99ce6dd02dbd4b9ded3461af592642061ffc12011a122a83747436a19751f23fcf528f095bec8bf8a707809f1b3441981e17f4f1f5bb872ade20e9ff241651082c65dccfa171d0cf4f87d8bb535aace89a18505b3a95888c8e6ca25528381668757⟩]
  climbs := by decide +kernel

theorem order_prime : order.Prime := by
  have hfirst : Nat.Prime 137186449 := by norm_num
  have hmem : ∃ s ∈ orderChain.steps, s.n = order := by
    simp [orderChain]
  obtain ⟨s, hs, hn⟩ := hmem
  rw [← hn]
  exact orderChain.prime hfirst s hs

theorem natCast_modulus_ne_zero {n : ℕ} (hpos : 0 < n) (hlt : n < modulus) :
    (n : ZMod modulus) ≠ 0 := by
  intro h
  exact absurd (Nat.le_of_dvd hpos ((ZMod.natCast_eq_zero_iff _ _).1 h)) (by omega)

theorem modulus_prime : modulus.Prime := by
  have hwide := pow_add_pow_lt_order
  have heq := modulus_eq
  have hodd : Odd order := Nat.Prime.odd_of_ne_two order_prime (by omega)
  have hneg : (-2 : ZMod modulus) ^ order = -1 := by
    rw [neg_eq_neg_one_mul, mul_pow, two_pow_order, hodd.neg_one_pow, mul_one]
  have htwo : ((2 : ℕ) : ZMod modulus) ≠ 0 := natCast_modulus_ne_zero (by omega) (by omega)
  have hthree : ((3 : ℕ) : ZMod modulus) ≠ 0 := natCast_modulus_ne_zero (by omega) (by omega)
  have hpred : modulus - 1 = order * 2 := by omega
  refine lucas_primality modulus (-2) ?_ ?_
  · rw [hpred, pow_mul, hneg, neg_one_sq]
  · intro r hr hdvd
    rw [hpred] at hdvd ⊢
    rcases hr.dvd_mul.1 hdvd with hq | h2
    · -- the square of `-2` is four
      rw [(Nat.prime_dvd_prime_iff_eq hr order_prime).1 hq,
        Nat.mul_div_cancel_left _ (by omega)]
      intro h
      exact hthree (by push_cast; linear_combination h)
    · rw [(Nat.prime_dvd_prime_iff_eq hr Nat.prime_two).1 h2, Nat.mul_div_cancel _ (by omega), hneg]
      intro h
      exact htwo (by push_cast; linear_combination -h)

end ThresholdElGamal
